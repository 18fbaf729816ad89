import Stencil.Proofs.Run.Spelling
import Stencil.Proofs.Template.Definitions
set_option autoImplicit false

namespace Stencil

/-- A part of a text that holds text, names, definitions and removals of definitions only. -/
inductive Entry where
  | text (s : String)
  | reference (name : String) (span : Span)
  | define (name : String) (value : Expr)
  | remove (name : String)

namespace Entry

def ofNode? : Node → Option Entry
  | .text s => some (.text s)
  | .expr source span =>
    match Expr.ofText source span.start with
    | .ok (.name name nameSpan) => some (.reference name nameSpan)
    | _ => none
  | .directive tag _ =>
    if tag.args.isEmpty then none
    else if tag.name = "define" then
      match Arguments.readDefineHead tag.args tag.argsSpan.start with
      | .ok ⟨name, _, .value _ x⟩ => some (.define name x)
      | _ => none
    else if tag.name = "undef" then
      match Arguments.readVariableName tag.args tag.argsSpan.start with
      | .ok ⟨name, _⟩ => some (.remove name)
      | _ => none
    else none
  | .fault _ => none

def ofNodes? (ns : List Node) : Option (List Entry) := ns.mapM ofNode?

inductive Reads : Entry → Node → Prop
  | text (s : String) : Reads (.text s) (.text s)
  | reference {source name : String} {span nameSpan : Span} :
    Expr.ofText source span.start = .ok (.name name nameSpan) → Reads (.reference name nameSpan) (.expr source span)
  | define {tag : Tag} {ss : List DocSection} {name : String} {nameSpan : Span} {lenient : Bool} {x : Expr} :
    tag.args.isEmpty = false → tag.name = "define" →
    Arguments.readDefineHead tag.args tag.argsSpan.start = .ok ⟨name, nameSpan, .value lenient x⟩ →
    Reads (.define name x) (.directive tag ss)
  | remove {tag : Tag} {ss : List DocSection} {name : String} {nameSpan : Span} :
    tag.args.isEmpty = false → tag.name = "undef" →
    Arguments.readVariableName tag.args tag.argsSpan.start = .ok ⟨name, nameSpan⟩ →
    Reads (.remove name) (.directive tag ss)

theorem reads_of_ofNode? {nd : Node} {e : Entry} (h : ofNode? nd = some e) : Reads e nd := by
  unfold ofNode? at h
  split at h
  · cases h
    exact .text _
  · split at h
    · next hread =>
      cases h
      exact .reference hread
    · cases h
  · split at h
    · cases h
    · next hargs =>
      have hargs := Bool.eq_false_iff.2 hargs
      split at h
      · next htag =>
        split at h
        · next hread =>
          cases h
          exact .define hargs htag hread
        · cases h
      · split at h
        · next htag =>
          split at h
          · next hread =>
            cases h
            exact .remove hargs htag hread
          · cases h
        · cases h
  · cases h

theorem reads_of_ofNodes? {ns : List Node} {es : List Entry} (h : ofNodes? ns = some es) :
    List.Forall₂ Reads es ns := by
  induction ns generalizing es with
  | nil =>
    cases h
    exact .nil
  | cons nd ns ih =>
    unfold ofNodes? at h
    rw [List.mapM_cons] at h
    obtain ⟨e, rest, he, hrest, rfl⟩ := exists_of_pair h
    exact .cons (reads_of_ofNode? he) (ih hrest)

def head? : Entry → Option String
  | .define n _ | .remove n => some n
  | _ => none

def heads (es : List Entry) : List String := es.filterMap head?

def Fits (bound : List String) : Entry → Prop
  | .define n _ => ∀ m ∈ bound, SameLetters m n → m = n
  | _ => True

/-- The names that are bound after an entry. The removal of a name may leave a mark under its own spelling. -/
def bound (marks : Bool) (names : List String) : Entry → List String
  | .define n _ => n :: names
  | .remove n => (if marks then [n] else []) ++ names.filter fun m => !sameName false m n
  | _ => names

def Steady (marks : Bool) : List String → List Entry → Prop
  | _, [] => True
  | names, e :: es => e.Fits names ∧ Steady marks (e.bound marks names) es

/-- Entries that differ at most in the case of variables, and name contexts only where these are exposed. -/
inductive Variant (k : Stock) : Entry → Entry → Prop
  | text (s : String) : Variant k (.text s) (.text s)
  | reference {n n' : String} (span : Span) : SameLetters n n' → Variant k (.reference n span) (.reference n' span)
  | define {n n' : String} {x x' : Expr} : SameLetters n n' → Expr.Twin k false x x' →
    Variant k (.define n x) (.define n' x')
  | remove {n n' : String} : SameLetters n n' → Variant k (.remove n) (.remove n')

variable {k : Stock} {es es' : List Entry} {all all' names : List String} {marks : Bool} {exposed : Prop}

theorem steady_of_apart (hall : Apart all) (hnames : ∀ m ∈ names, m ∈ all) (hheads : ∀ m ∈ heads es, m ∈ all) :
    Steady marks names es := by
  induction es generalizing names with
  | nil => trivial
  | cons e es ih =>
    have hrest : ∀ m ∈ heads es, m ∈ all := by
      intro m hm
      obtain ⟨x, hx, hhead⟩ := List.mem_filterMap.1 hm
      exact hheads m (List.mem_filterMap.2 ⟨x, List.mem_cons_of_mem _ hx, hhead⟩)
    have hhead (m : String) (hm : e.head? = some m) : m ∈ all :=
      hheads m (List.mem_filterMap.2 ⟨e, List.mem_cons_self, hm⟩)
    cases e with
    | text s => exact ⟨trivial, ih hnames hrest⟩
    | reference n span => exact ⟨trivial, ih hnames hrest⟩
    | define n x =>
      refine ⟨fun m hm hspelling => hall m (hnames m hm) n (hhead n rfl) hspelling, ih ?_ hrest⟩
      exact List.forall_mem_cons.2 ⟨hhead n rfl, hnames⟩
    | remove n =>
      refine ⟨trivial, ih (fun m hm => ?_) hrest⟩
      obtain hm | hm := List.mem_append.1 hm
      · cases marks with
        | true => exact List.mem_singleton.1 hm ▸ hhead n rfl
        | false => cases hm
      · exact hnames m (List.mem_filter.1 hm).1

theorem variants_mono {j : Stock} (h : List.Forall₂ (Variant k) es es')
    (hsame : ∀ n n', k.same false n n' → j.same false n n') (hcontexts : k.contexts → j.contexts) :
    List.Forall₂ (Variant j) es es' := by
  refine List.Forall₂.imp (fun e e' he => ?_) h
  cases he with
  | text s => exact .text s
  | reference span hn => exact .reference span hn
  | define hn hx => exact .define hn (hx.mono hsame hcontexts)
  | remove hn => exact .remove hn

theorem heads_respelled (hvariants : List.Forall₂ (Variant k) es es') (hsame : exposed → heads es' = heads es)
    (hall : ∀ m ∈ heads es, m ∈ all) (hall' : ∀ m ∈ heads es', m ∈ all') :
    List.Forall₂ (fun e e' => Option.Rel (HeadsRespelled exposed all all') e.head? e'.head?) es es' := by
  induction hvariants with
  | nil => exact .nil
  | cons h _ ih =>
    cases h with
    | text s => exact .cons .none (ih hsame hall hall')
    | reference span hn => exact .cons .none (ih hsame hall hall')
    | define hn _ | remove hn =>
      obtain ⟨hhead, hall⟩ := List.forall_mem_cons.1 hall
      obtain ⟨hhead', hall'⟩ := List.forall_mem_cons.1 hall'
      refine .cons (.some ⟨hn, ?_, hhead, hhead'⟩) (ih ?_ hall hall')
      · exact fun h => (List.cons.inj (hsame h)).1
      · exact fun h => (List.cons.inj (hsame h)).2

end Entry

/-- Spellings of variables stand for each other. The contexts may be named where they are exposed. -/
def Stock.respelling (exposed : Prop) : Stock :=
  ⟨fun _ => True, fun _ => True, fun _ => True, Respelling, exposed, False⟩

/-- Contexts in which the case of names does not show. An integer holds no names. In a record, a definition sets the
entry of its own spelling: so each text spells the names that it defines or removes in one way, the record's own
where it has them, and both texts in the same way unless nothing but names gets at the record. -/
inductive CaseHidden (h : Host) (w : World) (exposed : Prop) (es es' : List Entry) : Value → Prop
  | number (n : Int) (k : IntKind) : Entry.Steady false [] es → Entry.Steady false [] es' →
    CaseHidden h w exposed es es' (.int n k)
  | record {ref : Nat} {entries : Table Value} : ref < w.objects.size → w.object ref = .record entries →
    Apart (entries.names ++ Entry.heads es) → Apart (entries.names ++ Entry.heads es') →
    (exposed → Entry.heads es' = Entry.heads es) → w.MadeOf (.sparing ref exposed) →
    (∀ x ∈ entries.entries, x.2.MadeOf (.sparing ref exposed)) →
    h.Discreet (.record ref exposed (entries.names ++ Entry.heads es) (entries.names ++ Entry.heads es')) →
    CaseHidden h w exposed es es' (.object ref)

variable {o : Outlook} {exposed : Prop} {c : Compiler} {source : Source} {context : Kind} {marks : Bool}
  {names names' : List String} {heads : String → String → Prop}

/-- The names in force in two templates, which are among given ones. The removal of a name leaves a mark where the
outermost context has variables. -/
structure Names.Respelled (k : Stock) (context : Kind) (marks : Bool) (names names' : List String) (n n' : Names) :
    Prop where
  scope : n.scope.Respelled k n'.scope
  namespaces : n'.namespaces = n.namespaces
  context : n.scope.root.context = context
  marks : n.scope.root.binder = .dynamic ↔ marks = true
  names : ∀ m ∈ n.scope.root.bindings.names, m ∈ names
  names' : ∀ m ∈ n'.scope.root.bindings.names, m ∈ names'

namespace Names.Respelled

variable {k : Stock} {n n' : Names} {m m' : String}

theorem allocate (hn : n.Respelled k context marks names names' n') :
    ({ n with scope := n.scope.allocate.2 } : Names).Respelled k context marks names names'
      { n' with scope := n'.scope.allocate.2 } :=
  ⟨hn.scope.allocate, hn.namespaces, hn.context, hn.marks, hn.names, hn.names'⟩

theorem declare (hn : n.Respelled k context marks names names' n') (hm : SameLetters m m')
    (hfits : ∀ x ∈ names, SameLetters x m → x = m) (hfits' : ∀ x ∈ names', SameLetters x m' → x = m') {b b' : Binding}
    (hb : Binding.Twin k false b b') :
    ({ n with scope := n.scope.declare 0 m b } : Names).Respelled k context marks (m :: names) (m' :: names')
      { n' with scope := n'.scope.declare 0 m' b' } := by
  have hmem {t : Table Binding} {x : String} {known : List String} {a : Binding} (ht : ∀ y ∈ t.names, y ∈ known) :
      ∀ y ∈ (t.set x a).names, y ∈ x :: known := by
    intro y hy
    exact List.mem_cons.2 ((List.mem_cons.1 (Table.mem_names_set hy)).imp_right (ht y))
  have hscope := hn.scope.declare hm (fun x hx => hfits x (hn.names x hx)) (fun x hx => hfits' x (hn.names' x hx)) hb
  exact ⟨hscope, hn.namespaces, hn.context, hn.marks, hmem hn.names, hmem hn.names'⟩

theorem remove (hn : n.Respelled k context marks names names' n') (hm : SameLetters m m') :
    ({ n with scope := n.scope.remove 0 false m } : Names).Respelled k context marks
      (names.filter fun x => !sameName false x m) (names'.filter fun x => !sameName false x m')
      { n' with scope := n'.scope.remove 0 false m' } := by
  have hmem {t : Table Binding} {known : List String} (ht : ∀ y ∈ t.names, y ∈ known) (x : String) :
      ∀ y ∈ Table.names ⟨t.entries.filter fun e => !sameName false e.1 x⟩,
        y ∈ known.filter fun y => !sameName false y x := by
    intro y hy
    rw [t.names_filter fun y => !sameName false y x] at hy
    exact List.mem_filter.2 ((List.mem_filter.1 hy).imp_left (ht y))
  have hroot := Scope.remove_root hn.scope.inner hn.scope.apart m
  have hroot' := Scope.remove_root hn.scope.inner' hn.scope.apart' m'
  refine ⟨hn.scope.remove hm, hn.namespaces, ?_, ?_, ?_, ?_⟩ <;> dsimp only
  · rw [hroot]
    exact hn.context
  · rw [hroot]
    exact hn.marks
  · rw [hroot]
    exact hmem hn.names m
  · rw [hroot']
    exact hmem hn.names' m'

end Names.Respelled

/-- A compiler for which case does not count and unresolved names are let pass, and that brings nothing along which
tells spellings apart. -/
structure Compiler.Levels (c : Compiler) (o : Outlook) : Prop where
  resolvers : c.resolvers = []
  caseSensitive : c.options.caseSensitive = false
  strict : c.options.strict = false
  types : Apart c.types.names
  host : c.host.Discreet o
  enums : ∀ t n, o.parts.enum t n

theorem Compiler.Levels.stocked (hc : c.Levels o) (n : Names) :
    (c.settingAt n false).Stocked (o.respelling exposed) where
  literals l span := l.madeOf_value span
  types kind t ht := by
    have htype := hc.host.describe ht
    exact ⟨htype.field, htype.static, htype.method⟩
  variants _ t _ v _ _ := .enum (hc.enums t v)
  resolvers f hf := by
    have hnil : (c.settingAt n false).resolvers = [] := hc.resolvers
    rw [hnil] at hf
    cases hf

namespace Compile

variable {α β α' β' : Type} {k : Stock} {n n' : Names}

/-- Compilations for two templates that both make something, related, or both end in a fault. -/
def Pairs (c : Compiler) (source : Source) (n n' : Names) (Q : α → Names → α' → Names → Prop) (x : Compile α)
    (y : Compile α') : Prop :=
  Paired (fun r r' => Q r.1 r.2 r'.1 r'.2) (x c n) (y { c with source } n')

namespace Pairs

variable {Q : α → Names → α' → Names → Prop} {S : β → Names → β' → Names → Prop}

theorem value {a : α} {b : α'} (h : Q a n b n') : Pairs c source n n' Q (pure a) (pure b) := .ok h

theorem fault (d d' : Diagnostic) : Pairs c source n n' Q (throw d) (throw d') := .error

theorem bind {x : Compile α} {y : Compile α'} {f : α → Compile β} {g : α' → Compile β'}
    (hx : Pairs c source n n' Q x y) (hf : ∀ a m b m', Q a m b m' → Pairs c source m m' S (f a) (g b)) :
    Pairs c source n n' S (x >>= f) (y >>= g) :=
  Paired.bind hx fun r r' h => hf r.1 r.2 r'.1 r'.2 h

theorem scope {f : Scope → Compile β} {g : Scope → Compile β'}
    (h : Pairs c source n n' S (f n.scope) (g n'.scope)) :
    Pairs c source n n' S (Compile.scope >>= f) (Compile.scope >>= g) := h

end Pairs

theorem elaborateWith_apply (x : Expr) (c : Compiler) (n : Names) :
    elaborateWith false x c n = (c.settingAt n false).elaborate x >>= fun t => .ok (t, n) := by
  show (ofExcept ((c.settingAt n false).elaborate x)) c n = _
  cases (c.settingAt n false).elaborate x <;> rfl

theorem expectNotLet_apply (name : String) (span : Span) (c : Compiler) (n : Names) :
    Directive.expectNotLet name span c n =
      if (n.scope.letOwner? c.options.caseSensitive name).isSome then .error (.of (.alreadyLet name) span)
      else .ok ((), n) := by
  show (if (n.scope.letOwner? c.options.caseSensitive name).isSome then
    (throw (.of (.alreadyLet name) span) : Compile Unit) else pure ()) c n = _
  split <;> rfl

theorem bindValue_apply (name : String) (t : Typed) (c : Compiler) {n : Names} (hinner : n.scope.inner = []) :
    Directive.bindValue name t c n =
      if n.scope.root.binder = .dynamic then
        .ok (.setVariable 0 name t.code, { n with scope := n.scope.declare 0 name (.variable 0 name t.kind) })
      else .ok (.setSlot n.scope.slots t.code,
        { n with scope := n.scope.allocate.2.declare 0 name (.slot n.scope.slots t.kind .definition) }) := by
  show (if n.scope.binder? n.scope.declarationFrame = some .dynamic then
    (do
      Compile.declare n.scope.declarationFrame name (.variable n.scope.declarationFrame name t.kind)
      return .setVariable n.scope.declarationFrame name t.code : Compile Step)
    else (do
      let slot ← Compile.allocate
      Compile.declare n.scope.declarationFrame name (.slot slot t.kind .definition)
      return .setSlot slot t.code : Compile Step)) c n = _
  rw [Scope.declarationFrame_of_root hinner, Scope.binder?_of_root hinner]
  simp only [Option.some.injEq]
  split <;> rfl

theorem arguments_of_read {reader : String → Nat → Except SyntaxError α} {text : String} {span : Span} {a : α}
    (hread : reader text span.start = .ok a) : arguments reader text span = pure a := by
  unfold arguments
  rw [hread]

theorem define_apply {i : Invocation} {m : String} {nameSpan : Span} {lenient : Bool} {x : Expr}
    (hargs : i.tag.args.isEmpty = false)
    (hread : Arguments.readDefineHead i.tag.args i.tag.argsSpan.start = .ok ⟨m, nameSpan, .value lenient x⟩)
    (hstrict : c.options.strict = false) (n : Names) :
    Directive.define.action i c n = (do
      Directive.expectNotLet m nameSpan
      let t ← elaborateWith false x
      Directive.bindValue m t : Compile Step) c n := by
  dsimp only [Directive.define]
  rw [hargs, arguments_of_read hread]
  simp only [Bool.false_eq_true, if_false, pure_bind]
  cases lenient with
  | true => rfl
  | false =>
    have hoption : (do Directive.expectNotLet m nameSpan; Directive.bindValue m (← elaborate x) : Compile Step) c n =
        (do Directive.expectNotLet m nameSpan; Directive.bindValue m (← elaborateWith c.options.strict x)) c n := rfl
    rw [hstrict] at hoption
    exact hoption

/-- How compiled parts of two templates are related: the steps, and the names in force after them. -/
def Match (o : Outlook) (exposed : Prop) (heads : String → String → Prop) (context : Kind) (marks : Bool)
    (names names' : List String) (step : Step) (n : Names) (step' : Step) (n' : Names) : Prop :=
  Step.Respelled (o.stock Respelling exposed False) heads step step' ∧
    n.Respelled (o.stock Respelling exposed False) context marks names names' n'

section

variable (hc : c.Levels o)
  (hn : n.Respelled (o.respelling exposed) context marks names names' n')
include hc hn

omit hc in
theorem levels_root (hcontext : c.host.Levels c.world context) : c.host.Levels c.world n.scope.root.context := by
  rw [hn.context]
  exact hcontext

theorem pairs_elaborate (hcontext : c.host.Levels c.world context) {x x' : Expr}
    (hx : Expr.Twin (o.respelling exposed) false x x') :
    Pairs c source n n' (fun t m t' m' => Typed.Twin (o.respelling exposed) t t' ∧ m = n ∧ m' = n')
      (elaborateWith false x) (elaborateWith false x') := by
  have hcontext := levels_root hn hcontext
  have hsettings := Setting.corresponds_of_respelled (hc.stocked n) hn.scope hc.caseSensitive hc.resolvers hcontext
    hc.types
  have hscope : (c.settingAt n false).inScope n'.scope = ({ c with source } : Compiler).settingAt n' false := by
    unfold Compiler.settingAt Setting.inScope
    rw [hn.namespaces]
  have hx : Expr.Twin (o.respelling exposed) (c.settingAt n false).caseSensitive x x' := by
    rw [show (c.settingAt n false).caseSensitive = false from hc.caseSensitive]
    exact hx
  have hpair := ((hsettings.elaborate hx.like (.any x)).imp fun _ _ h => h.twin).paired
  unfold Pairs
  rw [elaborateWith_apply, elaborateWith_apply, ← hscope]
  exact hpair.bind fun t t' ht => .ok ⟨ht, rfl, rfl⟩

theorem pairs_expectNotLet {m m' : String} (hm : SameLetters m m') (span span' : Span) :
    Pairs c source n n' (fun _ p _ p' => p = n ∧ p' = n') (Directive.expectNotLet m span)
      (Directive.expectNotLet m' span') := by
  unfold Pairs
  rw [expectNotLet_apply, expectNotLet_apply]
  dsimp only
  rw [hc.caseSensitive, hn.scope.isSome_letOwner? hm]
  split
  · exact .error
  · exact .ok ⟨rfl, rfl⟩

omit hc in
theorem pairs_bindValue {m m' : String} (hm : SameLetters m m') (hfits : ∀ x ∈ names, SameLetters x m → x = m)
    (hfits' : ∀ x ∈ names', SameLetters x m' → x = m') (hheads : marks = true → heads m m') {t t' : Typed}
    (ht : Typed.Twin (o.respelling exposed) t t') :
    Pairs c source n n' (Match o exposed heads context marks (m :: names) (m' :: names'))
      (Directive.bindValue m t) (Directive.bindValue m' t') := by
  unfold Pairs
  rw [bindValue_apply m t c hn.scope.inner, bindValue_apply m' t' _ hn.scope.inner', hn.scope.binder,
    hn.scope.slots, ht.kind]
  split
  · next hdynamic =>
    refine .ok ⟨.setVariable 0 (hheads (hn.marks.1 hdynamic)) ht.code, ?_⟩
    exact hn.declare hm hfits hfits' (.ofVariable 0 t.kind ⟨rfl, hm⟩)
  · refine .ok ⟨.setSlot n.scope.slots ht.code, ?_⟩
    exact hn.allocate.declare hm hfits hfits' (.slot n.scope.slots t.kind .definition)

omit hc in
theorem pairs_undefAt {m m' : String} (hm : SameLetters m m') (hheads : marks = true → heads m m') :
    Pairs c source n n' (Match o exposed heads context marks ((Entry.remove m).bound marks names)
        ((Entry.remove m').bound marks names'))
      (Directive.undefAt n.scope 0 false m) (Directive.undefAt n'.scope 0 false m') := by
  have hgone {known : List String} {x : String} :
      ∀ y ∈ known.filter fun y => !sameName false y x, SameLetters y x → y = x := by
    intro y hy hspelling
    have hne := (List.mem_filter.1 hy).2
    rw [show sameName false y x = true from hspelling] at hne
    cases hne
  unfold Directive.undefAt
  rw [Scope.declarationFrame_of_root hn.scope.inner, Scope.declarationFrame_of_root hn.scope.inner',
    Scope.binder?_of_root hn.scope.inner, Scope.binder?_of_root hn.scope.inner', hn.scope.binder,
    if_neg (not_not_intro rfl), if_neg (not_not_intro rfl)]
  simp only [Option.some.injEq, hn.marks]
  cases marks with
  | true => exact .ok ⟨.unsetVariable 0 (hheads rfl), (hn.remove hm).declare hm hgone hgone .hidden⟩
  | false => exact .ok ⟨.text "", hn.remove hm⟩

theorem pairs_expression (hcontext : c.host.Levels c.world context) {text text' m m' : String}
    {span span' nameSpan : Span} (hread : Expr.ofText text span.start = .ok (.name m nameSpan))
    (hread' : Expr.ofText text' span'.start = .ok (.name m' nameSpan)) (hm : SameLetters m m') :
    Pairs c source n n' (fun t p t' p' => Typed.Twin (o.respelling exposed) t t' ∧ p = n ∧ p' = n')
      (expression text span) (expression text' span') := by
  have hexpression {text : String} {span : Span} {x : Expr} (hread : Expr.ofText text span.start = .ok x) :
      expressionWith false text span = elaborateWith false x := by
    unfold expressionWith elaborateWith Setting.elaborateText
    rw [hread]
  have hpair : Pairs c source n n' _ _ _ := pairs_elaborate hc hn hcontext (.name nameSpan ⟨rfl, hm⟩)
  rw [← hexpression hread, ← hexpression hread'] at hpair
  rw [← hc.strict] at hpair
  exact hpair

theorem pairs_define (hcontext : c.host.Levels c.world context) {i i' : Invocation} {m m' : String}
    {nameSpan nameSpan' : Span} {lenient lenient' : Bool} {x x' : Expr} (hargs : i.tag.args.isEmpty = false)
    (hargs' : i'.tag.args.isEmpty = false)
    (hread : Arguments.readDefineHead i.tag.args i.tag.argsSpan.start = .ok ⟨m, nameSpan, .value lenient x⟩)
    (hread' : Arguments.readDefineHead i'.tag.args i'.tag.argsSpan.start = .ok ⟨m', nameSpan', .value lenient' x'⟩)
    (hm : SameLetters m m') (hx : Expr.Twin (o.respelling exposed) false x x')
    (hfits : ∀ y ∈ names, SameLetters y m → y = m) (hfits' : ∀ y ∈ names', SameLetters y m' → y = m')
    (hheads : marks = true → heads m m') :
    Pairs c source n n' (Match o exposed heads context marks (m :: names) (m' :: names'))
      (Directive.define.action i) (Directive.define.action i') := by
  unfold Pairs
  rw [define_apply hargs hread hc.strict, define_apply (c := { c with source }) hargs' hread' hc.strict]
  refine (pairs_expectNotLet hc hn hm nameSpan nameSpan').bind ?_
  rintro - _ - _ ⟨rfl, rfl⟩
  refine (pairs_elaborate hc hn hcontext hx).bind ?_
  rintro t _ t' _ ⟨ht, rfl, rfl⟩
  exact pairs_bindValue hn hm hfits hfits' hheads ht

theorem pairs_undef (hcontext : c.host.Levels c.world context) {i i' : Invocation} {m m' : String}
    {nameSpan nameSpan' : Span} (hargs : i.tag.args.isEmpty = false) (hargs' : i'.tag.args.isEmpty = false)
    (hread : Arguments.readVariableName i.tag.args i.tag.argsSpan.start = .ok ⟨m, nameSpan⟩)
    (hread' : Arguments.readVariableName i'.tag.args i'.tag.argsSpan.start = .ok ⟨m', nameSpan'⟩)
    (hm : SameLetters m m') (hheads : marks = true → heads m m') :
    Pairs c source n n' (Match o exposed heads context marks ((Entry.remove m).bound marks names)
        ((Entry.remove m').bound marks names'))
      (Directive.undef.action i) (Directive.undef.action i') := by
  have hcontext := levels_root hn hcontext
  have hat : Pairs c source n n' _ _ _ := pairs_undefAt hn hm hheads
  have hfound := rel_cases (hn.scope.lookup hcontext ⟨rfl, hm⟩ hm)
  dsimp only [Directive.undef]
  rw [hargs, hargs', arguments_of_read hread, arguments_of_read hread']
  simp only [Bool.false_eq_true, if_false, pure_bind]
  refine Pairs.bind (Q := fun a p b p' => a = c ∧ b = { c with source } ∧ p = n ∧ p' = n') (.ok ⟨rfl, rfl, rfl, rfl⟩) ?_
  rintro _ p _ p' ⟨rfl, rfl, rfl, rfl⟩
  refine Pairs.bind (Q := fun cs q cs' q' => cs = false ∧ cs' = false ∧ q = p ∧ q' = p')
    (.ok ⟨hc.caseSensitive, hc.caseSensitive, rfl, rfl⟩) ?_
  rintro _ p _ p' ⟨rfl, rfl, rfl, rfl⟩
  refine .scope ?_
  dsimp only
  obtain ⟨⟨_, b⟩, ⟨_, b'⟩, hb, hb', rfl, rfl, htwin⟩ | ⟨hb, hb'⟩ := hfound <;> rw [hb, hb']
  · cases htwin with
    | slot s kind origin =>
      cases origin with
      | definition => exact hat
      | letBinding => exact .fault _ _
      | parameter => exact .fault _ _
    | ofVariable => exact hat
    | fragment => exact hat
    | hidden => exact .fault _ _
  · exact .fault _ _

omit hc in
theorem pairs_directive {tag tag' : Tag} {xs xs' : List Section} {D : Directive (Invocation → Compile Step)}
    {known known' : List String} (hD : Directives.standard.get? tag.name = some D)
    (hD' : Directives.standard.get? tag'.name = some D)
    (h : Pairs c source n n' (Match o exposed heads context marks known known') (D.action ⟨tag, xs⟩)
      (D.action ⟨tag', xs'⟩)) :
    Pairs c source n n' (Match o exposed heads context marks known known') (directive .standard tag xs)
      (directive .standard tag' xs') := by
  have hdepth {s : Scope} (hinner : s.inner = []) : s.depth = 1 := by
    unfold Scope.depth
    rw [hinner]
    rfl
  unfold directive
  rw [hD, hD']
  dsimp only
  refine .scope (h.bind fun step p step' p' hmatch => .scope ?_)
  rw [hdepth hn.scope.inner, hdepth hn.scope.inner', hdepth hmatch.2.scope.inner, hdepth hmatch.2.scope.inner']
  exact .value hmatch

theorem pairs_node (hcontext : c.host.Levels c.world context) {nd nd' : Node} {e e' : Entry} (he : e.Reads nd)
    (he' : e'.Reads nd') (hvariant : Entry.Variant (o.respelling exposed) e e') (hfits : e.Fits names)
    (hfits' : e'.Fits names') (hheads : marks = true → Option.Rel heads e.head? e'.head?) :
    Pairs c source n n' (Match o exposed heads context marks (e.bound marks names) (e'.bound marks names'))
      (node .standard nd) (node .standard nd') := by
  have hhead {m m' : String} (h : marks = true → Option.Rel heads (some m) (some m')) (hmarks : marks = true) :
      heads m m' := by
    cases h hmarks with
    | some hm => exact hm
  cases hvariant with
  | text s =>
    cases he
    cases he'
    rw [node]
    exact .value ⟨.text s, hn⟩
  | reference span hm =>
    cases he with
    | reference hread =>
      cases he' with
      | reference hread' =>
        rw [node, node]
        refine (pairs_expression hc hn hcontext hread hread' hm).bind ?_
        rintro t _ t' _ ⟨ht, rfl, rfl⟩
        exact .value ⟨.emit ht.code, hn⟩
  | define hm hx =>
    cases he with
    | define hargs htag hread =>
      cases he' with
      | define hargs' htag' hread' =>
        rw [node, node]
        refine pairs_directive hn (by rw [htag]; rfl) (by rw [htag']; rfl) ?_
        exact pairs_define hc hn hcontext hargs hargs' hread hread' hm hx hfits hfits' (hhead hheads)
  | remove hm =>
    cases he with
    | remove hargs htag hread =>
      cases he' with
      | remove hargs' htag' hread' =>
        rw [node, node]
        refine pairs_directive hn (by rw [htag]; rfl) (by rw [htag']; rfl) ?_
        exact pairs_undef hc hn hcontext hargs hargs' hread hread' hm (hhead hheads)

end

theorem pairs_nodes (hc : c.Levels o) (hcontext : c.host.Levels c.world context) {es es' : List Entry}
    (hvariants : List.Forall₂ (Entry.Variant (o.respelling exposed)) es es')
    (hheads : marks = true → List.Forall₂ (fun e e' => Option.Rel heads e.head? e'.head?) es es') {ns ns' : List Node}
    (hes : List.Forall₂ Entry.Reads es ns) (hes' : List.Forall₂ Entry.Reads es' ns')
    (hn : n.Respelled (o.respelling exposed) context marks names names' n')
    (hsteady : Entry.Steady marks names es) (hsteady' : Entry.Steady marks names' es') :
    Pairs c source n n' (fun ss p ss' p' =>
        List.Forall₂ (Step.Respelled (o.respelling exposed) heads) ss ss' ∧ p'.scope.slots = p.scope.slots)
      (nodes .standard ns) (nodes .standard ns') := by
  induction hvariants generalizing ns ns' names names' n n' with
  | nil =>
    cases hes
    cases hes'
    rw [nodes]
    exact .value ⟨.nil, hn.scope.slots⟩
  | cons hvariant _ ih =>
    cases hes with
    | cons he hes =>
      cases hes' with
      | cons he' hes' =>
        rw [nodes, nodes]
        have hfirst (hmarks : marks = true) := (List.forall₂_cons.1 (hheads hmarks)).1
        have hrest (hmarks : marks = true) := (List.forall₂_cons.1 (hheads hmarks)).2
        refine (pairs_node hc hn hcontext he he' hvariant hsteady.1 hsteady'.1 hfirst).bind ?_
        rintro step p step' p' ⟨hstep, hp⟩
        refine (ih hrest hes hes' hp hsteady.2 hsteady'.2).bind ?_
        rintro steps q steps' q' ⟨hsteps, hslots⟩
        exact .value ⟨.cons hstep hsteps, hslots⟩

end Compile

theorem Outlook.Play.run {h : Host} (st : o.Play h exposed heads) (hh : h.Discreet o) {ss ss' : List Step}
    (hss : List.Forall₂ (Step.Respelled (o.respelling exposed) heads) ss ss') (slots : Nat)
    (format : NumberFormat) {v : Value} (hv : st.context v) {w : World}
    (hw : o.world { w with format } { w with format }) :
    let r := Template.run ⟨Body.ofSteps ss, slots, format⟩ h v w
    let r' := Template.run ⟨Body.ofSteps ss', slots, format⟩ h v w
    Paired (fun p p' => p' = p ∧ r'.out = r.out) r.outcome r'.outcome := by
  have hstart : (st.toStage.agreement hh).Envs (Env.init v slots { w with format })
      (Env.init v slots { w with format }) := by
    refine ⟨rfl, ?_, rfl, fun n => ?_, rfl, rfl, rfl, hw⟩
    · intro u hu
      rw [List.mem_singleton.1 hu]
      exact hv
    · rw [Env.slot_init]
      exact .null
  have hended := st.steps hh hss _ _ hstart
  dsimp only [Template.run]
  rw [Step.runAll_ofSteps, Step.runAll_ofSteps]
  revert hended
  generalize Step.runAll h ss _ = x
  generalize Step.runAll h ss' _ = y
  intro hended
  cases hended with
  | ok _ he => exact .ok ⟨by rw [he.passCap], he.out⟩
  | stopped he => exact .ok ⟨by rw [he.passCap], he.out⟩
  | failed => exact .error

namespace Engine

variable {e : Engine} {es es' : List Entry} {v : Value} {w : World} {text text' : String}

section

variable {context : Kind} (hc : (e.compiler text w).Levels o) (hdirectives : e.directives = .standard)
  (hcontext : e.host.Levels w context) (hes : Entry.ofNodes? (Node.read e.directives 0 text.toList) = some es)
  (hes' : Entry.ofNodes? (Node.read e.directives 0 text'.toList) = some es')
  (hvariants : List.Forall₂ (Entry.Variant (o.respelling exposed)) es es')
  (hheads : marks = true → List.Forall₂ (fun x x' => Option.Rel heads x.head? x'.head?) es es')
  (hmarks : e.host.isDynamic w context = marks) (hsteady : Entry.Steady marks [] es)
  (hsteady' : Entry.Steady marks [] es')
include hc hdirectives hcontext hes hes' hvariants hheads hmarks hsteady hsteady'

/-- Steadily spelled variants of a text are compiled to templates that match step by step. -/
theorem compile_respelled :
    Paired (fun t t' => ∃ ss ss' slots, List.Forall₂ (Step.Respelled (o.respelling exposed) heads) ss ss' ∧
        t = ⟨Body.ofSteps ss, slots, e.options.numberFormat⟩ ∧ t' = ⟨Body.ofSteps ss', slots, e.options.numberFormat⟩)
      (e.compile text context w) (e.compile text' context w) := by
  have hstart : (⟨.init e.host w context, e.options.impliedNamespaces⟩ : Names).Respelled
      (o.respelling exposed) context marks [] []
      ⟨.init e.host w context, e.options.impliedNamespaces⟩ := by
    refine ⟨⟨rfl, rfl, rfl, rfl, rfl, .nil, nofun, nofun⟩, rfl, rfl, ?_, nofun, nofun⟩
    show (if e.host.isDynamic w context then BinderKind.dynamic else .declarations) = .dynamic ↔ _
    rw [hmarks]
    cases marks <;> decide
  have hnodes : Compile.Pairs (e.compiler text w) ⟨text'⟩ _ _ _ _ _ :=
    Compile.pairs_nodes hc hcontext hvariants hheads (Entry.reads_of_ofNodes? hes) (Entry.reads_of_ofNodes? hes') hstart
      hsteady hsteady'
  have hbody := hnodes.bind (f := fun ss => pure (Body.ofSteps ss)) (g := fun ss' => pure (Body.ofSteps ss'))
    (S := fun b p b' p' => ∃ ss ss', List.Forall₂ (Step.Respelled (o.respelling exposed) heads) ss ss' ∧
        b = Body.ofSteps ss ∧ b' = Body.ofSteps ss' ∧ p'.scope.slots = p.scope.slots)
      fun ss _ ss' _ hss => .value ⟨ss, ss', hss.1, rfl, rfl, hss.2⟩
  rw [← hdirectives] at hbody
  change Paired _ (Compile.body e.directives (Node.read e.directives 0 text.toList) (e.compiler text w)
    ⟨.init e.host w context, e.options.impliedNamespaces⟩) (Compile.body e.directives
      (Node.read e.directives 0 text'.toList) (e.compiler text' w)
      ⟨.init e.host w context, e.options.impliedNamespaces⟩) at hbody
  rw [compile_eq, compile_eq]
  revert hbody
  generalize Compile.body e.directives (Node.read e.directives 0 text.toList) _ _ = x
  generalize Compile.body e.directives (Node.read e.directives 0 text'.toList) _ _ = y
  intro hbody
  cases hbody with
  | error => exact .error
  | @ok r r' h =>
    obtain ⟨b, p⟩ := r
    obtain ⟨b', p'⟩ := r'
    obtain ⟨ss, ss', hss, rfl, rfl, hslots⟩ := h
    exact .ok ⟨ss, ss', p.scope.slots, hss, rfl, by rw [← hslots]⟩

theorem render_of_play (st : o.Play e.host exposed heads) (hv : st.context v) (hkind : v.kind w = context)
    (hw : o.world { w with format := e.options.numberFormat } { w with format := e.options.numberFormat }) :
    (e.render text v w).1.toOption = (e.render text' v w).1.toOption := by
  subst hkind
  have hcompiled := compile_respelled hc hdirectives hcontext hes hes' hvariants hheads hmarks hsteady hsteady'
  unfold render pass
  revert hcompiled
  generalize e.compile text (v.kind w) w = x
  generalize e.compile text' (v.kind w) w = y
  intro hcompiled
  cases hcompiled with
  | error => rfl
  | ok h =>
    obtain ⟨ss, ss', slots, hss, rfl, rfl⟩ := h
    have hrun := st.run hc.host hss slots e.options.numberFormat hv hw
    dsimp only at hrun ⊢
    revert hrun
    generalize Template.run ⟨Body.ofSteps ss, slots, e.options.numberFormat⟩ e.host v w = r
    generalize Template.run ⟨Body.ofSteps ss', slots, e.options.numberFormat⟩ e.host v w = r'
    obtain ⟨outcome, out, world⟩ := r
    obtain ⟨outcome', out', world'⟩ := r'
    intro hrun
    dsimp only at hrun ⊢
    cases hrun with
    | error => rfl
    | ok h =>
      obtain ⟨-, rfl⟩ := h
      rfl

end

/-- Where case does not count, templates of text, names, definitions and removals that differ in the case of variables
are rendered alike: either neither is rendered, or both give the same text. Each of them has to spell the names that
it defines as they are bound. -/
theorem case_of_names_is_hidden (e : Engine) (hdirectives : e.directives = .standard) (hresolvers : e.resolvers = [])
    (htypes : Apart e.types.names) (hcs : e.options.caseSensitive = false) (hstrict : e.options.strict = false)
    (hes : Entry.ofNodes? (Node.read e.directives 0 text.toList) = some es)
    (hes' : Entry.ofNodes? (Node.read e.directives 0 text'.toList) = some es')
    (hvariants : List.Forall₂ (Entry.Variant (.respelling exposed)) es es')
    (hhidden : CaseHidden e.host w exposed es es' v) :
    (e.render text v w).1.toOption = (e.render text' v w).1.toOption := by
  cases hhidden with
  | number n k hsteady hsteady' =>
    let st : Outlook.number.Play e.host True fun _ _ => False := Outlook.playNumber e.host
    refine render_of_play ⟨hresolvers, hcs, hstrict, htypes, e.host.discreet_number, fun _ _ => trivial⟩ hdirectives
      (.int k) hes hes' ?_ ?_ rfl hsteady hsteady' st (.inl ⟨n, k, rfl⟩) rfl rfl
    · exact Entry.variants_mono hvariants (fun _ _ h => h) fun _ => trivial
    · exact nofun
  | @record ref entries hbound hobject hapart hapart' hsame hmade hentries hhost =>
    have hkind : (Value.object ref).kind w = .object (.record ref) := by
      unfold Value.kind
      dsimp only
      rw [hobject]
      rfl
    have hcontext : e.host.Levels w ((Value.object ref).kind w) := by
      rw [hkind]
      exact .record hobject (hapart.mono fun m hm => List.mem_append_left _ hm)
    have hdynamic : e.host.isDynamic w ((Value.object ref).kind w) = true := by
      rw [hkind]
      unfold Host.isDynamic
      dsimp only
      rw [Host.Levels.objectType_record hobject]
      rfl
    have hworld : ({ w with format := e.options.numberFormat } : World).Respelled ref exposed
        (entries.names ++ Entry.heads es) (entries.names ++ Entry.heads es')
        { w with format := e.options.numberFormat } :=
      .refl hbound hmade hobject hentries (fun m hm => List.mem_append_left _ hm) fun m hm => List.mem_append_left _ hm
    refine render_of_play ⟨hresolvers, hcs, hstrict, htypes, hhost, fun _ _ => trivial⟩ hdirectives hcontext hes hes' ?_
      ?_ hdynamic ?_ ?_ (Outlook.playRecord e.host ref exposed hapart hapart') (.inl rfl) rfl hworld
    · exact Entry.variants_mono hvariants (fun _ _ h => h) fun h => h
    · intro _
      exact Entry.heads_respelled hvariants hsame (fun m hm => List.mem_append_right _ hm) fun m hm =>
        List.mem_append_right _ hm
    · exact Entry.steady_of_apart hapart nofun fun m hm => List.mem_append_right _ hm
    · exact Entry.steady_of_apart hapart' nofun fun m hm => List.mem_append_right _ hm

/-- A name that is defined, read and removed in a record, in one spelling each time it is bound and in others where it
is read. -/
theorem case_of_names_is_hidden_record :
    let e : Engine := { Engine.default with options := { Options.default with caseSensitive := false } }
    let w : World := ⟨#[.record ⟨[("Title", .text "x")]⟩], #[], [], .invariant⟩
    let text := "$$#define Name = title$$$$name$$$$#undef Name$$[$$NAME$$]"
    let text' := "$$#define nAME = TITLE$$$$Name$$$$#undef nAME$$[$$name$$]"
    ∃ es es', Entry.ofNodes? (Node.read e.directives 0 text.toList) = some es ∧
      Entry.ofNodes? (Node.read e.directives 0 text'.toList) = some es' ∧
      CaseHidden e.host w False es es' (.object 0) ∧
      (e.render text (.object 0) w).1.toOption = (e.render text' (.object 0) w).1.toOption ∧
      (e.render text' (.object 0) w).1.toOption = some "x[]" := by
  intro e w text text'
  let es : List Entry := [.define "Name" (.name "title" ⟨17, 22⟩), .reference "name" ⟨26, 30⟩, .remove "Name",
    .text "[", .reference "NAME" ⟨50, 54⟩, .text "]"]
  let es' : List Entry := [.define "nAME" (.name "TITLE" ⟨17, 22⟩), .reference "Name" ⟨26, 30⟩, .remove "nAME",
    .text "[", .reference "name" ⟨50, 54⟩, .text "]"]
  have hnodes : Node.read Directives.standard 0 "$$#define Name = title$$$$name$$$$#undef Name$$[$$NAME$$]".toList =
      [.directive ⟨"define", ⟨3, 9⟩, "Name = title", ⟨10, 22⟩, ⟨0, 24⟩⟩ [], .expr "name" ⟨26, 30⟩,
        .directive ⟨"undef", ⟨35, 40⟩, "Name", ⟨41, 45⟩, ⟨32, 47⟩⟩ [], .text "[", .expr "NAME" ⟨50, 54⟩,
        .text "]"] := by
    with_unfolding_all rfl
  have hnodes' : Node.read Directives.standard 0 "$$#define nAME = TITLE$$$$Name$$$$#undef nAME$$[$$name$$]".toList =
      [.directive ⟨"define", ⟨3, 9⟩, "nAME = TITLE", ⟨10, 22⟩, ⟨0, 24⟩⟩ [], .expr "Name" ⟨26, 30⟩,
        .directive ⟨"undef", ⟨35, 40⟩, "nAME", ⟨41, 45⟩, ⟨32, 47⟩⟩ [], .text "[", .expr "name" ⟨50, 54⟩,
        .text "]"] := by
    with_unfolding_all rfl
  have hes : Entry.ofNodes? (Node.read Directives.standard 0 text.toList) = some es := by
    rw [hnodes]
    with_unfolding_all rfl
  have hes' : Entry.ofNodes? (Node.read Directives.standard 0 text'.toList) = some es' := by
    rw [hnodes']
    with_unfolding_all rfl
  have hvariants : List.Forall₂ (Entry.Variant (.respelling False)) es es' := by
    refine .cons (.define ?_ (.name _ ⟨rfl, ?_⟩)) (.cons (.reference _ ?_) (.cons (.remove ?_) (.cons (.text _)
      (.cons (.reference _ ?_) (.cons (.text _) .nil)))))
    all_goals decide
  have hhidden : CaseHidden e.host w False es es' (.object 0) := by
    refine .record (by decide) rfl (by decide) (by decide) False.elim ?_ ?_ Host.discreet_empty
    · intro ref href
      cases ref with
      | zero => cases href rfl
      | succ ref => exact .record fun _ he => absurd he List.not_mem_nil
    · intro x hx
      rw [List.mem_singleton.1 hx]
      exact .text "x"
  have hrun : (e.render text' (.object 0) w).1.toOption = some "x[]" := by decide +kernel
  exact ⟨es, es', hes, hes', hhidden, case_of_names_is_hidden e rfl rfl (by decide) rfl rfl hes hes' hvariants hhidden, hrun⟩

/-- A definition under a second spelling leaves the first one with its old value, a removal under a spelling that a
record does not use leaves the value in the record, and the text of a record shows how names were spelled. -/
theorem case_of_names_shows :
    let e : Engine := { Engine.default with options := { Options.default with caseSensitive := false } }
    let w : World := ⟨#[.record ⟨[("Title", .text "x")]⟩], #[], [], .invariant⟩
    let render (text : String) (v : Value) := (e.render text v w).1.toOption
    render "$$#define n = 1$$$$#define N = 2$$$$n$$" (.int 5 .i32) = some "1" ∧
      render "$$#define n = 1$$$$#define n = 2$$$$n$$" (.int 5 .i32) = some "2" ∧
      render "$$#undef title$$[$$title$$]" (.object 0) = some "[x]" ∧
      render "$$#undef Title$$[$$title$$]" (.object 0) = some "[]" ∧
      render "$$#define a = 1$$$$#define b = $0 + \"\"$$$$b$$" (.object 0) = some "\x7bTitle: x, a: 1\x7d" ∧
      render "$$#define A = 1$$$$#define b = $0 + \"\"$$$$b$$" (.object 0) = some "\x7bTitle: x, A: 1\x7d" := by
  decide +kernel

end Engine

end Stencil
