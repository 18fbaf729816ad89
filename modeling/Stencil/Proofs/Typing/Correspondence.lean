import Stencil.Proofs.Expr.Rebase
import Stencil.Proofs.Host.Builtin
import Stencil.Proofs.Scope.Alike
import Stencil.Proofs.Typing.Namespaces
set_option autoImplicit false

namespace Stencil

mutual

/-- The first names of the dotted paths in an expression. The name of a called method ends a path. -/
def Expr.heads : Expr → List String
  | .literal _ _ | .name _ _ | .context _ _ => []
  | .member target _ _ _ =>
    match target.path? with
    | some (first :: _) => [first.name]
    | _ => target.heads
  | .index target position _ => target.heads ++ position.heads
  | .call callee args _ =>
    (match callee with
      | .member target _ _ _ => target.heads
      | callee => callee.heads) ++ Expr.headsAll args
  | .unary _ operand _ => operand.heads
  | .binary _ left right _ => left.heads ++ right.heads
  | .choice test yes no _ => test.heads ++ yes.heads ++ no.heads
  | .guarded test yes _ => test.heads ++ yes.heads

def Expr.headsAll : List Expr → List String
  | [] => []
  | x :: xs => x.heads ++ Expr.headsAll xs

end

theorem Expr.path?_shift {j : Nat} (e : Expr) : (e.shift j).path? = e.path?.map (List.map (Segment.shift j)) := by
  induction e using path?.induct with
  | case1 n s => rfl
  | case2 t n ns s ih =>
    rw [shift, path?, path?, ih, Option.map_map, Option.map_map]
    simp [Function.comp_def, Segment.shift]
  | case3 e hname hmember =>
    cases e with
    | name n s => exact absurd rfl (hname n s)
    | member t n ns s => exact absurd rfl (hmember t n ns s)
    | _ => simp only [shift, path?, Option.map_none]

/-- What is taken for the same in two compilations: a relation of code of a kind that holds of compound code where it
holds of the parts. Where a setting corresponds to itself, it is what holds of all that is compiled there. -/
structure Correspondence where
  /-- Whether the second compilation may succeed where the first does not. -/
  eased : Prop
  /-- What the first compilation may be refused with, and where. -/
  fault : Diagnostic → Prop := fun _ => True
  blamed : Span → Prop := fun _ => True
  code : Kind → Code → Code → Prop
  /-- Code that is passed on, whatever its kind. -/
  passed : Code → Code → Prop
  /-- Which kinds code of a kind may be made to yield. -/
  target : Kind → Kind → Prop := fun _ _ => True
  value : World → Value → Prop
  field : Field → Prop
  method : Method → Prop
  dynamic : Prop := True
  fragment : Fragment → Fragment → Prop
  name : String → String → Prop
  first : String → String → Prop
  contexts : Prop := True
  place : Span → Span
  named {n n' : String} : first n n' → name n n'
  merge {a b : Span} : blamed a → blamed b → blamed (a.merge b) := by intros; trivial
  refused {f : Fault} {span : Span} : (f.classify == .internal) = false → blamed span → fault (.of f span) := by
    intros; trivial
  passing {k : Kind} {c c' : Code} : code k c c' → passed c c'
  const {w : World} {v : Value} : value w v → code (v.kind w) (.const v) (.const v)
  ofField {f : Field} {k : Kind} {c c' : Code} : field f → code k c c' → code f.kind (.field c f) (.field c' f)
  property {n : String} {cs : Bool} {k j : Kind} {c c' : Code} : dynamic → code k c c' →
    code j (.property c n cs) (.property c' n cs)
  unary {op : UnaryOp} {k j : Kind} {c c' : Code} : op.kind k = .ok j → code k c c' →
    code j (.unary op c) (.unary op c')
  binary {op : BinaryOp} {k j m : Kind} {a a' b b' : Code} : op ≠ .coalesce → op.kind k j = .ok m → code k a a' →
    code j b b' → code m (.binary op a b) (.binary op a' b')
  both {k j : Kind} {a a' b b' : Code} : code k a a' → code j b b' → code .bool (.both a b) (.both a' b')
  either {k j : Kind} {a a' b b' : Code} : code k a a' → code j b b' → code .bool (.either a b) (.either a' b')
  coalesce {k j : Kind} {a a' b b' : Code} : code k a a' → code j b b' →
    code (k.meet j) (.coalesce a b (k.meet j)) (.coalesce a' b' (k.meet j))
  choice {k : Kind} {t t' y y' n n' : Code} : code .bool t t' → code k y y' → code k n n' →
    code k (.choice t y n) (.choice t' y' n')
  assign {k j : Kind} {c c' : Code} : target k j → k.assignable j → code k c c' → code j c c'
  toBool {k : Kind} {c c' : Code} : code k c c' → code .bool (.toBool c) (.toBool c')
  toText {k : Kind} {c c' : Code} : code k c c' → code .text (.toText c) (.toText c')
  convert {k j : Kind} {c c' : Code} : target k j → ¬k.assignable j → code k c c' →
    code j (.convert c j) (.convert c' j)
  tests (k : Kind) : target k .bool := by intros; trivial
  branches {k j : Kind} {c c' d d' : Code} : code k c c' → code j d d' →
    target k (k.ofBranches j) ∧ target j (k.ofBranches j) := by intros; exact ⟨trivial, trivial⟩
  params {m : Method} : method m → ∀ j ∈ m.params, ∀ k, target k j := by intros; trivial
  ofMethod {m : Method} {k : Kind} {c c' : Code} {cs cs' : List Code} : method m → code k c c' →
    List.Forall₂ passed cs cs' → code m.returns (.method c m cs) (.method c' m cs')
  callValue {n n' : String} {k : Kind} {c c' : Code} {cs cs' : List Code} : n' = n ∨ name n n' → code k c c' →
    List.Forall₂ passed cs cs' → code .any (.callValue c n cs) (.callValue c' n' cs')
  arity {f f' : Fragment} : fragment f f' → f'.params.length = f.params.length
  ofFragment {f f' : Fragment} {cs cs' : List Code} : fragment f f' → List.Forall₂ passed cs cs' →
    code .text (.fragment f.name f.params f.snapshot f.compute f.emit cs)
      (.fragment f'.name f'.params f'.snapshot f'.compute f'.emit cs')

def Kind.Late (k : Kind) : Prop := k = .any ∨ k = .null

namespace Correspondence

section

variable (K : Correspondence)

structure Match (t t' : Typed) : Prop where
  kind : t'.kind = t.kind
  code : K.code t.kind t.code t'.code

/-- Both compilations give what is related, or the first is refused with a fault that it may have. -/
abbrev Meets {α α' : Type} : (α → α' → Prop) → Except Diagnostic α → Except Diagnostic α' → Prop :=
  Stencil.Meets K.fault K.eased

/-- What a name means to both. Where `eased`, it may mean something to the second only. -/
inductive Answer (eased : Prop) : Option Typed → Option Typed → Prop
  | found {t t' : Typed} : K.Match t t' → Answer eased (some t) (some t')
  | unknown : Answer eased none none
  | eased {t : Typed} : eased → Answer eased none (some t)

inductive Bound (cs : Bool) : Binding → Binding → Prop
  | slot {n n' : Nat} (k : Kind) (o o' : Origin) :
    K.code k (.slot n) (.slot n') → Bound cs (.slot n k o) (.slot n' k o')
  | ofVariable {frame : Nat} {n n' : String} {k : Kind} :
    K.code k (.variable frame n k cs) (.variable frame n' k cs) → Bound cs (.variable frame n k) (.variable frame n' k)
  | fragment {f f' : Fragment} : K.fragment f f' → Bound cs (.fragment f) (.fragment f')
  | hidden : Bound cs .hidden .hidden

def segment (g : Expr.Segment) : Expr.Segment := ⟨g.name, K.place g.span⟩

/-- Dotted paths that differ in their first names only, and in where they stand. -/
inductive Path (R : String → String → Prop) : List Expr.Segment → List Expr.Segment → Prop
  | mk {n n' : String} (span : Span) (rest : List Expr.Segment) : R n n' →
    Path R (⟨n, span⟩ :: rest) (⟨n', K.place span⟩ :: rest.map K.segment)

def Qualifier : Option String → Option String → Prop :=
  Option.Rel fun q q' => ∃ p p', K.Path K.first p p' ∧ q = Setting.joinPath p ∧ q' = Setting.joinPath p'

/-- What paths start with: the value of the first name, or a type of the setting that takes at least one name. -/
inductive Begins (s : Setting) : Option (Setting.Head × Nat) → Option (Setting.Head × Nat) → Prop
  | none : Begins s none none
  | value {t t' : Typed} : K.Match t t' → Begins s (some (.value t, 1)) (some (.value t', 1))
  | type {n : String} {t : NamedType} (m : Nat) : (n, t) ∈ s.types.entries →
    Begins s (some (.type t, m + 1)) (some (.type t, m + 1))

/-- A type and a name in it that is called, in the second compilation too. -/
def Callee (s : Setting) (x y : NamedType × Expr.Segment) : Prop :=
  y = (x.1, K.segment x.2) ∧ K.blamed x.2.span ∧ ∃ n, (n, x.1) ∈ s.types.entries

structure Takes (w : World) (t : HostType) : Prop where
  field : ∀ {cs name f}, t.field? cs name = some f → K.field f
  static : ∀ {cs name m}, t.static? cs name = some m → K.value w m.value
  method : ∀ m ∈ t.methods, K.method m
  dynamic : t.isDynamic = true → K.dynamic

mutual

/-- Expressions that correspond. Where a callee is a path, its first name is one that stands alone. -/
inductive Like : Expr → Expr → Prop
  | literal (l : Literal) (span span' : Span) : Like (.literal l span) (.literal l span')
  | name {n n' : String} (span : Span) : K.name n n' → Like (.name n span) (.name n' (K.place span))
  | context (n : Nat) (span span' : Span) : K.contexts → Like (.context n span) (.context n span')
  | path {x x' : Expr} {p p' : List Expr.Segment} (n : String) (nameSpan span span' : Span) :
    x.path? = some p → x'.path? = some p' → K.Path K.first p p' →
    Like (.member x n nameSpan span) (.member x' n (K.place nameSpan) span')
  | member {x x' : Expr} (n : String) (nameSpan span span' : Span) : x.path? = none → x'.path? = none → Like x x' →
    Like (.member x n nameSpan span) (.member x' n (K.place nameSpan) span')
  | index {x x' i i' : Expr} (span span' : Span) : Like x x' → Like i i' → Like (.index x i span) (.index x' i' span')
  | callName {n n' : String} {args args' : List Expr} (nameSpan span : Span) : K.name n n' → LikeAll args args' →
    Like (.call (.name n nameSpan) args span) (.call (.name n' (K.place nameSpan)) args' (K.place span))
  | callMember {x x' : Expr} {args args' : List Expr} (n : String) (nameSpan s s' span : Span) :
    Option.Rel (K.Path K.name) x.path? x'.path? → Like x x' → LikeAll args args' →
    Like (.call (.member x n nameSpan s) args span) (.call (.member x' n (K.place nameSpan) s') args' (K.place span))
  | call {x x' : Expr} {args args' : List Expr} (span span' : Span) :
    (∀ n s, x ≠ .name n s) → (∀ y n ns s, x ≠ .member y n ns s) → Like x x' → LikeAll args args' →
    Like (.call x args span) (.call x' args' span')
  | unary (op : UnaryOp) {x x' : Expr} (span span' : Span) : Like x x' → Like (.unary op x span) (.unary op x' span')
  | binary (op : BinaryOp) {x x' y y' : Expr} (span span' : Span) : Like x x' → Like y y' →
    Like (.binary op x y span) (.binary op x' y' span')
  | choice {x x' y y' z z' : Expr} (span span' : Span) : Like x x' → Like y y' → Like z z' →
    Like (.choice x y z span) (.choice x' y' z' span')
  | guarded {x x' y y' : Expr} (span span' : Span) : Like x x' → Like y y' →
    Like (.guarded x y span) (.guarded x' y' span')

inductive LikeAll : List Expr → List Expr → Prop
  | nil : LikeAll [] []
  | cons {x x' : Expr} {xs xs' : List Expr} : Like x x' → LikeAll xs xs' → LikeAll (x :: xs) (x' :: xs')

end

end

variable {K : Correspondence} {t t' u u' v v' : Typed} {ts ts' : List Typed}

theorem map_segment (hplace : ∀ span, K.place span = span) (p : List Expr.Segment) : p.map K.segment = p := by
  have hsegment : K.segment = id := funext fun g => by rw [segment, hplace, id]
  rw [hsegment, List.map_id]

namespace Path

variable {R : String → String → Prop} {p p' : List Expr.Segment}

theorem take (h : K.Path R p p') (n : Nat) : K.Path R (p.take (n + 1)) (p'.take (n + 1)) := by
  obtain ⟨span, rest, h⟩ := h
  rw [List.take_succ_cons, List.take_succ_cons, ← List.map_take]
  exact .mk span (rest.take n) h

theorem drop (h : K.Path R p p') (n : Nat) : p'.drop (n + 1) = (p.drop (n + 1)).map K.segment := by
  obtain ⟨span, rest, h⟩ := h
  rw [List.drop_succ_cons, List.drop_succ_cons, List.map_drop]

theorem append (h : K.Path R p p') (more : List Expr.Segment) : K.Path R (p ++ more) (p' ++ more.map K.segment) := by
  obtain ⟨span, rest, h⟩ := h
  rw [List.cons_append, List.cons_append, ← List.map_append]
  exact .mk span (rest ++ more) h

theorem length (h : K.Path R p p') : p'.length = p.length := by
  obtain ⟨span, rest, h⟩ := h
  rw [List.length_cons, List.length_cons, List.length_map]

theorem of_place (hplace : ∀ span, K.place span = span) {n n' : String} (span : Span) (rest : List Expr.Segment)
    (hn : R n n') : K.Path R (⟨n, span⟩ :: rest) (⟨n', span⟩ :: rest) := by
  have hpath : K.Path R (⟨n, span⟩ :: rest) (⟨n', K.place span⟩ :: rest.map K.segment) := .mk span rest hn
  rwa [hplace, map_segment hplace] at hpath

theorem joinPath (h : K.Path R p p') (hR : ∀ n n', R n n' → n' = n) : Setting.joinPath p' = Setting.joinPath p := by
  obtain ⟨span, rest, h⟩ := h
  rw [hR _ _ h]
  simp [Setting.joinPath, Function.comp_def, segment]

end Path

theorem Qualifier.eq {q q' : Option String} (h : K.Qualifier q q') (hfirst : ∀ n n', K.first n n' → n' = n) : q' = q := by
  obtain ⟨_, _, rfl, rfl, p, p', hp, rfl, rfl⟩ | ⟨rfl, rfl⟩ := rel_cases h
  · rw [hp.joinPath hfirst]
  · rfl

theorem Bound.isHidden {cs : Bool} {b b' : Binding} (h : K.Bound cs b b') : b'.isHidden = b.isHidden := by
  cases h <;> rfl

theorem codes (h : List.Forall₂ K.Match ts ts') : List.Forall₂ K.passed (ts.map (·.code)) (ts'.map (·.code)) := by
  rw [List.forall₂_map_left_iff, List.forall₂_map_right_iff]
  exact h.imp fun _ _ ht => K.passing ht.code

theorem kinds (h : List.Forall₂ K.Match ts ts') : ts'.map (·.kind) = ts.map (·.kind) := by
  induction h with
  | nil => rfl
  | cons ht _ ih => rw [List.map_cons, List.map_cons, ht.kind, ih]

theorem match_const {w : World} {v : Value} (hv : K.value w v) : K.Match (.const w v) (.const w v) := ⟨rfl, K.const hv⟩

variable {span : Span}

theorem refuse {α α' : Type} {R : α → α' → Prop} {f f' : Fault} (hf : (f.classify == .internal) = false)
    (hp : K.blamed span) {span' : Span} :
    K.Meets R (.error (.of f span) : Except Diagnostic α) (.error (.of f' span') : Except Diagnostic α') :=
  .error (K.refused hf hp)

theorem Match.coerceTo (h : K.Match t t') {k : Kind} (hk : K.target t.kind k) (hp : K.blamed span) (span' : Span) :
    K.Meets (fun u u' => K.code k u.code u'.code) (t.coerceTo k span) (t'.coerceTo k span') := by
  unfold Typed.coerceTo
  rw [h.kind]
  split
  · next hassign => exact .ok (K.assign hk hassign h.code)
  · next hassign =>
    split
    · exact .ok (K.toBool h.code)
    · exact .ok (K.toText h.code)
    · split
      · exact .ok (K.convert hk hassign h.code)
      · exact refuse rfl hp

theorem callFragment {f f' : Fragment} (hf : K.fragment f f') (hts : List.Forall₂ K.Match ts ts') (hp : K.blamed span)
    (span' : Span) : K.Meets K.Match (Setting.callFragment f ts span) (Setting.callFragment f' ts' span') := by
  unfold Setting.callFragment
  rw [← hts.length_eq, K.arity hf]
  split
  · exact .ok ⟨rfl, K.ofFragment hf (codes hts)⟩
  · exact refuse rfl hp

theorem selectMethod (hts : List.Forall₂ K.Match ts ts') (ms : List Method) (name name' : String) (hp : K.blamed span)
    (span' : Span) : K.Meets (fun m m' => m' = m ∧ ∀ x, m = some x → x ∈ ms) (Setting.selectMethod ms name ts span)
      (Setting.selectMethod ms name' ts' span') := by
  unfold Setting.selectMethod
  rw [kinds hts]
  cases hsel : Selection.select ms (ts.map (·.kind)) with
  | exact m =>
    refine .ok ⟨rfl, ?_⟩
    rintro _ ⟨⟩
    exact Selection.mem_of_select (.inl hsel)
  | converted m =>
    refine .ok ⟨rfl, ?_⟩
    rintro _ ⟨⟩
    exact Selection.mem_of_select (.inr hsel)
  | none => exact .ok ⟨rfl, nofun⟩
  | ambiguous ms => exact refuse rfl hp

theorem coerceArgs (hts : List.Forall₂ K.Match ts ts') {ks : List Kind} (hks : ∀ j ∈ ks, ∀ k, K.target k j)
    (hp : K.blamed span) (span' : Span) :
    K.Meets (List.Forall₂ K.passed) (Setting.coerceArgs span ts ks) (Setting.coerceArgs span' ts' ks) := by
  induction hts generalizing ks with
  | nil => exact .ok .nil
  | cons ht _ ih =>
    cases ks with
    | nil => exact .ok .nil
    | cons k ks =>
      obtain ⟨hk, hks⟩ := List.forall_mem_cons.1 hks
      exact (ht.coerceTo (hk _) hp span').bind fun _ _ hu => (ih hks).bind fun _ _ hcs =>
        .ok (.cons (K.passing hu) hcs)

theorem callMethodOn {k : Kind} {c c' : Code} (hc : K.code k c c') (hts : List.Forall₂ K.Match ts ts') {m : Method}
    (hm : K.method m) (hp : K.blamed span) (span' : Span) :
    K.Meets K.Match (Setting.callMethodOn c m ts span) (Setting.callMethodOn c' m ts' span') :=
  (coerceArgs hts (K.params hm) hp span').bind fun _ _ hcs => .ok ⟨rfl, K.ofMethod hm hc hcs⟩

theorem Match.callTyped (ht : K.Match t t') (hts : List.Forall₂ K.Match ts ts') {n n' : String}
    (hn : n' = n ∨ K.name n n') (hp : K.blamed span) (span' : Span) :
    K.Meets K.Match (Setting.callTyped t n ts span) (Setting.callTyped t' n' ts' span') := by
  unfold Setting.callTyped
  rw [ht.kind]
  split
  iterate 3 exact .ok ⟨rfl, K.callValue hn ht.code (codes hts)⟩
  exact refuse rfl hp

theorem Match.unary (ht : K.Match t t') (op : UnaryOp) (hp : K.blamed span) (span' : Span) :
    K.Meets K.Match (Setting.unary op t span) (Setting.unary op t' span') := by
  unfold Setting.unary
  rw [ht.kind]
  split
  · next hk => exact .ok ⟨rfl, K.unary hk ht.code⟩
  · exact refuse rfl hp

theorem Match.binary (ht : K.Match t t') (hu : K.Match u u') (op : BinaryOp) (hp : K.blamed span) (span' : Span) :
    K.Meets K.Match (Setting.binary op t u span) (Setting.binary op t' u' span') := by
  unfold Setting.binary
  rw [ht.kind, hu.kind]
  split
  · next hk =>
    refine .ok ⟨rfl, ?_⟩
    cases op with
    | and => cases hk; exact K.both ht.code hu.code
    | or => cases hk; exact K.either ht.code hu.code
    | coalesce => cases hk; exact K.coalesce ht.code hu.code
    | _ => exact K.binary nofun hk ht.code hu.code
  · exact refuse rfl hp

theorem Match.choice (hu : K.Match u u') (hv : K.Match v v') (ht : K.code .bool t.code t'.code) {uSpan vSpan : Span}
    (hup : K.blamed uSpan) (hvp : K.blamed vSpan) (uSpan' vSpan' : Span) :
    K.Meets K.Match (Setting.choice t u v uSpan vSpan) (Setting.choice t' u' v' uSpan' vSpan') := by
  obtain ⟨hyes, hno⟩ := K.branches hu.code hv.code
  unfold Setting.choice
  rw [hu.kind, hv.kind]
  exact (hu.coerceTo hyes hup uSpan').bind fun _ _ hyes => (hv.coerceTo hno hvp vSpan').bind fun _ _ hno =>
    .ok ⟨rfl, K.choice ht hyes hno⟩

theorem literal (l : Literal) (hp : K.blamed span) (span' : Span) :
    K.Meets (fun v v' => v' = v ∧ l.value span = .ok v) (l.value span) (l.value span') := by
  cases l with
  | pattern body flags =>
    rw [Literal.value, Literal.value]
    split
    · exact .ok ⟨rfl, rfl⟩
    · exact refuse rfl hp
    · exact refuse rfl hp
  | _ => exact .ok ⟨rfl, rfl⟩

/-- Names and contexts correspond to themselves, so much further on. -/
structure Shifts (K : Correspondence) (j : Nat) : Prop where
  place : ∀ span, K.place span = span.shift j
  name : ∀ n, K.name n n
  contexts : K.contexts

variable {j : Nat}

theorem Path.shift (hK : K.Shifts j) {R : String → String → Prop} {g : Expr.Segment} (hg : R g.name g.name)
    (rest : List Expr.Segment) : K.Path R (g :: rest) ((g :: rest).map (Expr.Segment.shift j)) := by
  have hsegment : Expr.Segment.shift j = K.segment := funext fun g => by
    rw [segment, hK.place]
    rfl
  rw [hsegment]
  exact .mk g.span rest hg

mutual

theorem like_shift (hK : K.Shifts j) : (x : Expr) → (∀ n ∈ x.heads, K.first n n) → K.Like x (x.shift j)
  | .literal v span, _ => by
    rw [Expr.shift]
    exact .literal v span _
  | .name n span, _ => by
    rw [Expr.shift, ← hK.place]
    exact .name span (hK.name n)
  | .context n span, _ => by
    rw [Expr.shift]
    exact .context n span _ hK.contexts
  | .member target n nameSpan span, h => by
    have hpath' := target.path?_shift (j := j)
    rw [Expr.heads] at h
    rw [Expr.shift, ← hK.place nameSpan]
    match hpath : target.path? with
    | none =>
      rw [hpath] at h hpath'
      exact .member n nameSpan span _ hpath hpath' (like_shift hK target h)
    | some [] => exact absurd hpath (Expr.path?_ne_nil target)
    | some (first :: more) =>
      rw [hpath] at h hpath'
      exact .path n nameSpan span _ hpath hpath' (.shift hK (h _ List.mem_cons_self) more)
  | .index target position span, h => by
    rw [Expr.heads] at h
    obtain ⟨ht, hp⟩ := List.forall_mem_append.1 h
    rw [Expr.shift]
    exact .index span _ (like_shift hK target ht) (like_shift hK position hp)
  | .call callee args span, h => by
    rw [Expr.heads.eq_def] at h
    obtain ⟨hcallee, hargs⟩ := List.forall_mem_append.1 h
    have hargs := likeAll_shift hK args hargs
    rw [Expr.shift]
    match callee with
    | .name n nameSpan =>
      rw [Expr.shift, ← hK.place, ← hK.place]
      exact .callName nameSpan span (hK.name n) hargs
    | .member target n nameSpan s =>
      have hpath' := target.path?_shift (j := j)
      rw [Expr.shift, ← hK.place nameSpan, ← hK.place span]
      refine .callMember n nameSpan s _ span ?_ (like_shift hK target hcallee) hargs
      match hpath : target.path? with
      | none =>
        rw [hpath', hpath]
        exact .none
      | some [] => exact absurd hpath (Expr.path?_ne_nil target)
      | some (first :: more) =>
        rw [hpath', hpath]
        exact .some (.shift hK (hK.name _) more)
    | .literal .. | .context .. | .index .. | .call .. | .unary .. | .binary .. | .choice .. | .guarded .. =>
      exact .call span _ nofun nofun (like_shift hK _ hcallee) hargs
  | .unary op operand span, h => by
    rw [Expr.heads] at h
    rw [Expr.shift]
    exact .unary op span _ (like_shift hK operand h)
  | .binary op left right span, h => by
    rw [Expr.heads] at h
    obtain ⟨hl, hr⟩ := List.forall_mem_append.1 h
    rw [Expr.shift]
    exact .binary op span _ (like_shift hK left hl) (like_shift hK right hr)
  | .choice test yes no span, h => by
    rw [Expr.heads] at h
    obtain ⟨h, hn⟩ := List.forall_mem_append.1 h
    obtain ⟨ht, hy⟩ := List.forall_mem_append.1 h
    rw [Expr.shift]
    exact .choice span _ (like_shift hK test ht) (like_shift hK yes hy) (like_shift hK no hn)
  | .guarded test yes span, h => by
    rw [Expr.heads] at h
    obtain ⟨ht, hy⟩ := List.forall_mem_append.1 h
    rw [Expr.shift]
    exact .guarded span _ (like_shift hK test ht) (like_shift hK yes hy)

theorem likeAll_shift (hK : K.Shifts j) : (xs : List Expr) → (∀ n ∈ Expr.headsAll xs, K.first n n) →
    K.LikeAll xs (Expr.shiftAll j xs)
  | [], _ => by
    rw [Expr.shiftAll]
    exact .nil
  | x :: xs, h => by
    rw [Expr.headsAll] at h
    obtain ⟨hx, hxs⟩ := List.forall_mem_append.1 h
    rw [Expr.shiftAll]
    exact .cons (like_shift hK x hx) (likeAll_shift hK xs hxs)

end

/-- Names correspond to themselves only. -/
structure Reflexive (K : Correspondence) : Prop extends K.Shifts 0 where
  eq : ∀ {n n'}, K.name n n' → n' = n
  first : ∀ n, K.first n n

theorem like_refl (hK : K.Shifts 0) {x : Expr} (hfirst : ∀ n ∈ x.heads, K.first n n) : K.Like x x := by
  have hlike := like_shift hK x hfirst
  rwa [Expr.shift_zero] at hlike

end Correspondence

namespace Scope

theorem cases_of_lookupIn {h : Host} {w : World} {cs : Bool} {name : String} {frames : List Frame} {i : Nat}
    {b : Binding} (hb : lookupIn h w cs name frames = some (i, b)) :
    ∃ f ∈ frames, (∃ n, (n, b) ∈ f.bindings.entries) ∨
      ∃ k, h.variableKind? w cs name f.context = some k ∧ b = .variable i name k := by
  induction frames with
  | nil => cases hb
  | cons f outer ih =>
    unfold lookupIn at hb
    split at hb
    · next hmeaning =>
      cases hb
      refine ⟨f, .head _, ?_⟩
      unfold meaning? at hmeaning
      split at hmeaning
      · next hfind =>
        cases hmeaning
        exact .inl (Table.mem_of_lookup hfind)
      · split at hmeaning
        · obtain ⟨k, hk, hvariable⟩ := Option.map_eq_some_iff.1 hmeaning
          exact .inr ⟨k, hk, hvariable.symm⟩
        · cases hmeaning
    · obtain ⟨f', hf', hmeaning⟩ := ih hb
      exact ⟨f', .tail _ hf', hmeaning⟩

theorem context?_zero (s : Scope) : s.context? 0 = some s.current.context := by
  unfold context? frames current
  cases s.inner <;> rfl

end Scope

namespace Setting

/-- The same host and the same resolvers, which answer alike, and no greater strictness. -/
structure Asks (K : Correspondence) (s s' : Setting) : Prop where
  host : s'.host = s.host
  world : s'.world = s.world
  caseSensitive : s'.caseSensitive = s.caseSensitive
  resolvers : s'.resolvers = s.resolvers
  strict : s'.strict = true → s.strict = true
  eased : s.strict = true → s'.strict = false → K.eased
  literals : ∀ (l : Literal) (span : Span), Ensures (K.value s.world) (l.value span)
  types : ∀ {k c c' t}, K.code k c c' → s.host.describe s.world k = some t → K.Takes s.world t
  elements : ∀ {k j m c c' i i'}, K.code k c c' → K.code j i i' →
    (if s.host.isDynamic s.world k then some .any else s.host.element? s.world k) = some m →
    K.code m (.index c i) (.index c' i')
  asked : ∀ f ∈ s.resolvers, ∀ {t t'}, K.Match t t' → ∀ n {q q'}, K.Qualifier q q' → ∀ {span}, K.blamed span →
    K.Meets (Option.Rel K.Match) (f (s.request t n q span)) (f (s'.request t' n q' (K.place span)))

structure Members (K : Correspondence) (s s' : Setting) : Prop extends Asks K s s' where
  lateMember : ∀ {k c c'} n, K.code k c c' →
    K.code .any (.lateMember c n s.caseSensitive s.strict) (.lateMember c' n s.caseSensitive s'.strict)
  lateCall : ∀ {k c c' cs cs'} n, K.code k c c' → List.Forall₂ K.passed cs cs' →
    K.code .any (.lateCall c n cs s.caseSensitive s.strict) (.lateCall c' n cs' s.caseSensitive s'.strict)

structure Means (K : Correspondence) (s s' : Setting) (n n' : String) : Prop where
  lookup : Option.Rel (fun x y => K.Bound s.caseSensitive x.2 y.2) (s.lookup n) (s'.lookup n')
  /-- A name that the scope does not know is asked of the innermost context. -/
  own : ∀ {span}, K.blamed span → K.Meets (K.Answer (s.strict = true ∧ s'.strict = false))
    (s.resolve (s.request s.receiver n none span)) (s'.resolve (s'.request s'.receiver n' none (K.place span)))

/-- Paths start alike: with types of the same names, or with names that mean the same strictly. -/
structure Heads (K : Correspondence) (s s' : Setting) : Prop where
  caseSensitive : s'.caseSensitive = s.caseSensitive
  namespaces : s'.namespaces = s.namespaces
  types : ∀ ns p p', K.Path K.first p p' → s'.types.lookup s'.caseSensitive (ns ++ joinPath p') =
    s.types.lookup s.caseSensitive (ns ++ joinPath p)
  names : ∀ {n n'}, K.first n n' → Means K { s with strict := true } { s' with strict := true } n n'

variable {K : Correspondence} {s s' : Setting} {t t' : Typed} {ts ts' : List Typed} {span : Span}

theorem not_eased (strict : Bool) : ¬(strict = true ∧ strict = false) := by
  cases strict <;> simp

theorem typeFront?_some {ns : String} {path : List Expr.Segment} {n m : Nat} {type : NamedType}
    (h : s.typeFront? ns path n = some (type, m)) : 0 < m ∧ ∃ name, (name, type) ∈ s.types.entries := by
  obtain ⟨k, -, rfl, hlookup⟩ := typeFront?_eq_some h
  exact ⟨Nat.succ_pos k, Table.mem_of_lookup hlookup⟩

theorem unresolved_of_strict (hstrict : s.strict = true) (f : Fault) (span : Span) :
    s.unresolved f span = .error (.of f span) := by
  rw [Setting.unresolved, hstrict, if_pos rfl]

theorem uncalled_of_strict (hstrict : s.strict = true) (p : Prop) [Decidable p] (f : Fault) (span : Span)
    (d : Diagnostic) : ∃ d', (if p then s.unresolved f span else .error d) = .error d' := by
  split
  · exact ⟨_, unresolved_of_strict hstrict f span⟩
  · exact ⟨d, rfl⟩

namespace Asks

variable (hs : Asks K s s')
include hs

theorem unresolved {f : Fault} (hf : (f.classify == .internal) = false) (f' : Fault) (hp : K.blamed span)
    (span' : Span) : K.Meets K.Match (s.unresolved f span) (s'.unresolved f' span') := by
  have hempty : K.value s.world (.text "") := hs.literals (.text "") default _ rfl
  have heased := hs.eased
  have hstrict := hs.strict
  unfold Setting.unresolved
  cases h : s.strict <;> cases h' : s'.strict
  · exact .ok ⟨rfl, K.const hempty⟩
  · rw [h] at hstrict
    cases hstrict h'
  · exact .eased (K.refused hf hp) (heased h h')
  · exact Correspondence.refuse hf hp

theorem uncalled (p : Prop) [Decidable p] {f : Fault} (hf : (f.classify == .internal) = false) (f' : Fault)
    (hp : K.blamed span) (span' : Span) {d : Diagnostic} (hd : K.fault d) (d' : Diagnostic) :
    K.Meets K.Match (if p then s.unresolved f span else .error d)
      (if p then s'.unresolved f' span' else .error d') := by
  split
  · exact hs.unresolved hf f' hp span'
  · exact .error hd

theorem memberOf (ht : K.Match t t') {n : String} {q q' : Option String} {span span' : Span}
    (hlate : t.kind.Late → K.code .any (.lateMember t.code n s.caseSensitive s.strict)
      (.lateMember t'.code n s.caseSensitive s'.strict)) :
    K.Answer (s.strict = true ∧ s'.strict = false) (memberOf s.host s.world (s.request t n q span))
      (memberOf s'.host s'.world (s'.request t' n q' span')) := by
  have hstrict := hs.strict
  unfold Stencil.memberOf request
  dsimp only
  rw [ht.kind, hs.host, hs.world, hs.caseSensitive]
  split
  · next hany => exact .found ⟨rfl, hlate (.inl hany)⟩
  · next hnull => exact .found ⟨rfl, hlate (.inr hnull)⟩
  · cases hinfo : s.host.describe s.world t.kind with
    | none => exact .unknown
    | some info =>
      have htakes := hs.types ht.code hinfo
      dsimp only [Option.bind_eq_bind, Option.bind_some]
      cases hf : info.field? s.caseSensitive n with
      | some f => exact .found ⟨rfl, K.ofField (htakes.field hf) ht.code⟩
      | none =>
        cases hm : info.static? s.caseSensitive n with
        | some m => exact .found (Correspondence.match_const (htakes.static hm))
        | none =>
          dsimp only
          split
          · next hdynamic =>
            have hd := htakes.dynamic hdynamic
            cases info.variableKind? s.caseSensitive n with
            | some k => exact .found ⟨rfl, K.property hd ht.code⟩
            | none =>
              cases h : s.strict <;> cases h' : s'.strict
              · exact .found ⟨rfl, K.property hd ht.code⟩
              · rw [h] at hstrict
                cases hstrict h'
              · exact .eased ⟨rfl, rfl⟩
              · exact .unknown
          · exact .unknown

theorem resolve (ht : K.Match t t') {n : String} {q q' : Option String} (hq : K.Qualifier q q') (hp : K.blamed span)
    (hlate : t.kind.Late → K.code .any (.lateMember t.code n s.caseSensitive s.strict)
      (.lateMember t'.code n s.caseSensitive s'.strict)) :
    K.Meets (K.Answer (s.strict = true ∧ s'.strict = false)) (s.resolve (s.request t n q span))
      (s'.resolve (s'.request t' n q' (K.place span))) := by
  have hask : ∀ fs, (∀ f ∈ fs, f ∈ s.resolvers) → K.Meets (K.Answer (s.strict = true ∧ s'.strict = false))
      (s.resolveWith (s.request t n q span) fs) (s'.resolveWith (s'.request t' n q' (K.place span)) fs) := by
    intro fs hfs
    induction fs with
    | nil => exact .ok (hs.memberOf ht hlate)
    | cons f fs ih =>
      obtain ⟨hf, hfs⟩ := List.forall_mem_cons.1 hfs
      refine (hs.asked f hf ht n hq hp).bind fun a b hab => ?_
      cases hab with
      | some hab => exact .ok (.found hab)
      | none => exact ih hfs
  unfold Setting.resolve
  rw [hs.resolvers]
  exact hask s.resolvers fun _ hf => hf

/-- What both find corresponds; what only the second finds, the first takes for a fault. -/
theorem settled {g g' : Typed → Except Diagnostic Typed} {x y : Except Diagnostic Typed}
    (hg : ∀ t t', K.Match t t' → K.Meets K.Match (g t) (g' t')) (hxy : K.Meets K.Match x y)
    (hx : s.strict = true → ∃ d, x = .error d) (a b : Option Typed) :
    K.Answer (s.strict = true ∧ s'.strict = false) a b → K.Meets K.Match
      (match a with
        | some t => g t
        | none => x)
      (match b with
        | some t => g' t
        | none => y) := by
  rintro (ht | _ | ⟨h, h'⟩)
  · exact hg _ _ ht
  · exact hxy
  · obtain ⟨d, rfl⟩ := hx h
    exact .of_error (hxy.failsOnly d rfl) (hs.eased h h')

theorem index {u u' : Typed} (ht : K.Match t t') (hu : K.Match u u') (hp : K.blamed span) (span' : Span) :
    K.Meets K.Match (s.index t u span) (s'.index t' u' span') := by
  unfold Setting.index
  rw [ht.kind, hs.host, hs.world]
  dsimp only
  split
  · next hk => exact .ok ⟨rfl, hs.elements ht.code hu.code hk⟩
  · exact Correspondence.refuse rfl hp

theorem match_const {v : Value} (hv : K.value s.world v) : K.Match (s.const v) (s'.const v) := by
  unfold Setting.const
  rw [hs.world]
  exact Correspondence.match_const hv

theorem staticValue {type : NamedType} (n : String) (hstatics : ∀ id name, type = .host id name →
    K.Takes s.world (s.host.type id)) (hvariants : ∀ e v, type = .enum e → e.variant? s.caseSensitive n = some v →
      K.value s.world (.enum e v)) (hp : K.blamed span) (span' : Span) :
    K.Meets K.Match (s.staticValue type n span) (s'.staticValue type n span') := by
  unfold Setting.staticValue
  rw [hs.host, hs.caseSensitive]
  cases type with
  | host id name =>
    dsimp only
    cases hm : (s.host.type id).static? s.caseSensitive n with
    | some m => exact .ok (hs.match_const ((hstatics id name rfl).static hm))
    | none => exact hs.unresolved rfl _ hp _
  | enum e =>
    dsimp only
    cases hv : e.variant? s.caseSensitive n with
    | some v => exact .ok (hs.match_const (hvariants e v rfl hv))
    | none => exact hs.unresolved rfl _ hp _

theorem callStatic (hts : List.Forall₂ K.Match ts ts') {type : NamedType} (n : String)
    (hstatics : ∀ id name, type = .host id name → K.Takes s.world (s.host.type id)) {nameSpan : Span}
    (hn : K.blamed nameSpan) (hp : K.blamed span) (nameSpan' span' : Span) :
    K.Meets K.Match (s.callStatic type n nameSpan ts span) (s'.callStatic type n nameSpan' ts' span') := by
  cases type with
  | enum e => exact hs.unresolved rfl _ hn _
  | host id name =>
    have htakes := hstatics id name rfl
    unfold Setting.callStatic
    rw [hs.host, hs.caseSensitive]
    dsimp only
    refine (Correspondence.selectMethod hts _ n n hp span').bind ?_
    rintro _ m ⟨rfl, hm⟩
    cases m with
    | some m =>
      have hm := HostType.mem_of_methodsNamed (List.mem_filter.1 (hm m rfl)).1
      have hnull : K.value s.world .null := hs.literals .null default _ rfl
      exact Correspondence.callMethodOn (K.const hnull) hts (htakes.method m hm) hp span'
    | none =>
      dsimp only
      cases hm : (s.host.type id).static? s.caseSensitive n with
      | some m => exact (hs.match_const (htakes.static hm)).callTyped hts (.inl rfl) hp span'
      | none => exact hs.uncalled _ rfl _ hn _ (K.refused rfl hp) _

end Asks

namespace Members

variable (hs : Members K s s')
include hs

theorem member (ht : K.Match t t') (n : String) (hp : K.blamed span) {q q' : Option String} (hq : K.Qualifier q q') :
    K.Meets K.Match (s.member t n span q) (s'.member t' n (K.place span) q') :=
  (hs.resolve ht hq hp fun _ => hs.lateMember n ht.code).bind <|
    hs.settled (fun _ _ hu => .ok hu) (hs.unresolved rfl _ hp _) fun h => ⟨_, unresolved_of_strict h _ _⟩

theorem members (ht : K.Match t t') {before before' : List Expr.Segment} (hbefore : K.Path K.first before before')
    {ms : List Expr.Segment} (hms : ∀ m ∈ ms, K.blamed m.span) :
    K.Meets K.Match (s.members t before ms) (s'.members t' before' (ms.map K.segment)) := by
  induction ms generalizing t t' before before' with
  | nil => exact .ok ht
  | cons m ms ih =>
    obtain ⟨hm, hms⟩ := List.forall_mem_cons.1 hms
    refine (hs.member ht m.name hm (.some ⟨before, before', hbefore, rfl, rfl⟩)).bind fun _ _ hu => ?_
    exact ih hu (hbefore.append [m]) hms

theorem callMember (ht : K.Match t t') (hts : List.Forall₂ K.Match ts ts') (n : String) {nameSpan : Span}
    (hn : K.blamed nameSpan) (hp : K.blamed span) (span' : Span) : K.Meets K.Match (s.callMember t n nameSpan ts span)
      (s'.callMember t' n (K.place nameSpan) ts' span') := by
  unfold Setting.callMember
  rw [ht.kind, hs.host, hs.world, hs.caseSensitive]
  split
  · exact .ok ⟨rfl, hs.lateCall n ht.code (Correspondence.codes hts)⟩
  · exact .ok ⟨rfl, hs.lateCall n ht.code (Correspondence.codes hts)⟩
  · refine (Correspondence.selectMethod hts _ n n hp span').bind ?_
    rintro _ m ⟨rfl, hm⟩
    cases m with
    | some m =>
      have hmem := hm m rfl
      split at hmem
      · next hinfo =>
        have hmethod := (hs.types ht.code hinfo).method m (HostType.mem_of_methodsNamed hmem)
        exact Correspondence.callMethodOn ht.code hts hmethod hp span'
      · cases hmem
    | none =>
      refine (hs.resolve ht .none hn fun _ => hs.lateMember n ht.code).bind ?_
      exact hs.settled (fun _ _ hu => hu.callTyped hts (.inl rfl) hp span')
        (hs.uncalled _ rfl _ hn _ (K.refused rfl hp) _) fun h => uncalled_of_strict h _ _ _ _

end Members

theorem Means.tryName {n n' : String} (hn : Means K s s' n n') (hcs : s'.caseSensitive = s.caseSensitive)
    (hp : K.blamed span) : K.Meets (K.Answer (s.strict = true ∧ s'.strict = false)) (s.tryName n span)
      (s'.tryName n' (K.place span)) := by
  have hown := hn.own hp
  unfold Setting.tryName
  obtain ⟨⟨i, b⟩, ⟨i', b'⟩, hx, hy, hb⟩ | ⟨hx, hy⟩ := rel_cases hn.lookup <;> rw [hx, hy]
  · cases hb with
    | slot k o o' hc => exact .ok (.found ⟨rfl, hc⟩)
    | ofVariable hc =>
      rw [hcs]
      exact .ok (.found ⟨rfl, hc⟩)
    | hidden => exact hown
    | @fragment f f' hf =>
      have hempty : f'.params.isEmpty = f.params.isEmpty := by
        rw [Bool.eq_iff_iff, List.isEmpty_iff_length_eq_zero, List.isEmpty_iff_length_eq_zero, K.arity hf]
      dsimp only
      rw [hempty]
      split
      · exact (Correspondence.callFragment hf .nil hp _).map fun _ _ ht => .found ht
      · exact Correspondence.refuse rfl hp
  · exact hown

namespace Heads

variable (hs : Heads K s s') {p p' : List Expr.Segment} (hp : K.Path K.first p p')
include hs hp

theorem typeFront? (ns : String) (n : Nat) : s'.typeFront? ns p' n = s.typeFront? ns p n := by
  induction n with
  | zero => rfl
  | succ n ih => rw [Setting.typeFront?, Setting.typeFront?, ih, hs.types ns _ _ (hp.take n)]

variable (hb : ∀ m ∈ p, K.blamed m.span)
include hb

theorem impliedType : K.Meets (K.Begins s) (s.impliedType p) (s'.impliedType p') := by
  have hhits : s'.namespaces.foldl (fun hits ns => addHit hits (s'.typeFront? (ns ++ ".") p' p'.length)) [] =
      s.namespaces.foldl (fun hits ns => addHit hits (s.typeFront? (ns ++ ".") p p.length)) [] := by
    simp only [hs.typeFront? hp, hp.length, hs.namespaces]
  unfold Setting.impliedType
  dsimp only
  rw [hhits]
  split
  · exact .ok .none
  · next type n heq =>
    have himplied : s.impliedType p = .ok (some (.type type, n)) := by rw [Setting.impliedType, heq]
    obtain ⟨ns, -, _, _, ⟨⟩, hreach⟩ := exists_reach?_of_impliedType himplied
    obtain ⟨hn, _, hmem⟩ := typeFront?_some hreach
    obtain ⟨m, rfl⟩ := Nat.exists_eq_add_one.2 hn
    exact .ok (.type m hmem)
  · have hne : p ≠ [] := by
      obtain ⟨span, rest, -⟩ := hp
      exact List.cons_ne_nil _ _
    refine Correspondence.refuse rfl (K.merge ?_ ?_)
    · rw [List.head?_eq_some_head hne]
      exact hb _ (List.head_mem hne)
    · rw [List.getLast?_eq_some_getLast hne]
      exact hb _ (List.getLast_mem hne)

theorem head {n n' : String} (hn : K.first n n') (hspan : K.blamed span) :
    K.Meets (K.Begins s) (s.head ⟨n, span⟩ p) (s'.head ⟨n', K.place span⟩ p') := by
  have hlookup : Option.Rel (fun x y => K.Bound s.caseSensitive x.2 y.2) (s.lookup n) (s'.lookup n') :=
    (hs.names hn).lookup
  have hlocal : ((s'.lookup n').any fun b => !b.2.isHidden) = ((s.lookup n).any fun b => !b.2.isHidden) := by
    obtain ⟨x, y, hx, hy, hb⟩ | ⟨hx, hy⟩ := rel_cases hlookup <;> rw [hx, hy]
    rw [Option.any_some, Option.any_some, hb.isHidden]
  unfold Setting.head
  simp only [hlocal, hs.typeFront? hp, hp.length]
  cases htyped : if ((s.lookup n).any fun b => !b.2.isHidden) = true then none
      else s.typeFront? "" p p.length with
  | some x =>
    obtain ⟨type, m⟩ := x
    split at htyped
    · cases htyped
    · obtain ⟨hm, _, hmem⟩ := typeFront?_some htyped
      obtain ⟨m, rfl⟩ := Nat.exists_eq_add_one.2 hm
      exact .ok (.type m hmem)
  | none =>
    -- both settings try the name strictly, so neither can have an answer that the other lacks
    refine ((hs.names hn).tryName hs.caseSensitive hspan).bind fun a b hab => ?_
    cases hab with
    | unknown => exact hs.impliedType hp hb
    | eased h => cases h.2
    | found ht =>
      dsimp only
      rw [ht.kind]
      split
      · refine (hs.impliedType hp hb).bind fun x y hxy => ?_
        cases hxy with
        | none => exact .ok (.value ht)
        | value hu => exact .ok (.value hu)
        | type m hmem => exact .ok (.type m hmem)
      · exact .ok (.value ht)

/-- Whether a path names a static method does not depend on what its first name is compiled to. -/
theorem staticCallee? : K.Meets (Option.Rel (K.Callee s)) (s.staticCallee? p) (s'.staticCallee? p') := by
  obtain ⟨span, rest, hn⟩ := hp
  cases rest with
  | nil => exact .ok .none
  | cons second rest =>
    refine (hs.head (.mk span (second :: rest) hn) hb hn (List.forall_mem_cons.1 hb).1).bind fun a b hab => ?_
    cases hab with
    | none | value => exact .ok .none
    | type m htype =>
      dsimp only
      rw [List.drop_succ_cons, List.drop_succ_cons, ← List.map_drop]
      rcases hlast : (second :: rest).drop m with _ | ⟨last, _ | ⟨_, _⟩⟩
      · exact .ok .none
      · have hmem : last ∈ second :: rest := List.mem_of_mem_drop (hlast ▸ List.mem_singleton_self last)
        exact .ok (.some ⟨rfl, hb last (List.mem_cons_of_mem _ hmem), _, htype⟩)
      · exact .ok .none

end Heads

structure Corresponds (K : Correspondence) (s s' : Setting) : Prop extends Members K s s' where
  heads : Heads K s s'
  statics : ∀ n id name, (n, .host id name) ∈ s.types.entries → K.Takes s.world (s.host.type id)
  variants : ∀ n e name v, (n, .enum e) ∈ s.types.entries → e.variant? s.caseSensitive name = some v →
    K.value s.world (.enum e v)
  names : ∀ {n n'}, K.name n n' → Means K s s' n n'
  called : ∀ {n n' ts ts'}, K.name n n' → List.Forall₂ K.Match ts ts' → ∀ {nameSpan span}, K.blamed nameSpan →
    K.blamed span → K.Meets K.Match (s.callMember s.receiver n nameSpan ts span)
      (s'.callMember s'.receiver n' (K.place nameSpan) ts' (K.place span))
  callees : ∀ {p p'}, K.Path K.name p p' → (∀ m ∈ p, K.blamed m.span) →
    K.Meets (Option.Rel (K.Callee s)) (s.staticCallee? p) (s'.staticCallee? p')
  contexts : K.contexts → ∀ n, s'.scope.context? n = s.scope.context? n ∧
    ∀ k, s.scope.context? n = some k → K.code k (.context n) (.context n)

namespace Corresponds

theorem name (hs : Corresponds K s s') {n n' : String} (hn : K.name n n') (hp : K.blamed span) :
    K.Meets K.Match (s.name n span) (s'.name n' (K.place span)) :=
  ((hs.names hn).tryName hs.caseSensitive hp).bind <|
    hs.settled (fun _ _ hu => .ok hu) (hs.unresolved rfl _ hp _) fun h => ⟨_, unresolved_of_strict h _ _⟩

theorem path (hs : Corresponds K s s') {n n' : String} (hn : K.first n n') {p p' : List Expr.Segment}
    (hp : K.Path K.first p p') (hb : ∀ m ∈ p, K.blamed m.span) (hspan : K.blamed span) :
    K.Meets K.Match (s.path ⟨n, span⟩ p) (s'.path ⟨n', K.place span⟩ p') := by
  have hdrop (m : Nat) : ∀ g ∈ p.drop m, K.blamed g.span := fun g hg => hb g (List.mem_of_mem_drop hg)
  refine (hs.heads.head hp hb hn hspan).bind fun a b hab => ?_
  cases hab with
  | none =>
    rw [hp.drop 0]
    exact (hs.name (K.named hn) hspan).bind fun _ _ ht => hs.members ht (hp.take 0) (hdrop 1)
  | value ht =>
    dsimp only
    rw [hp.drop 0]
    exact hs.members ht (hp.take 0) (hdrop 1)
  | @type name _ m hmem =>
    have hrest := hdrop (m + 1)
    dsimp only
    rw [hp.drop m]
    cases hcut : p.drop (m + 1) with
    | nil =>
      refine Correspondence.refuse rfl (K.merge hspan ?_)
      cases hlast : (p.take (m + 1)).getLast? with
      | none => exact hspan
      | some last => exact hb last (List.mem_of_mem_take (List.mem_of_getLast? hlast))
    | cons g more =>
      rw [hcut] at hrest
      obtain ⟨hg, hmore⟩ := List.forall_mem_cons.1 hrest
      have hvalue := hs.staticValue g.name (fun id full he => hs.statics name id full (he ▸ hmem))
        (fun e v he hv => hs.variants name e g.name v (he ▸ hmem) hv) hg (K.place g.span)
      exact hvalue.bind fun _ _ ht => hs.members ht (hp.take (m + 1)) hmore

theorem callName (hs : Corresponds K s s') {n n' : String} (hn : K.name n n') (hts : List.Forall₂ K.Match ts ts')
    {nameSpan : Span} (hnp : K.blamed nameSpan) (hp : K.blamed span) : K.Meets K.Match (s.callName n nameSpan ts span)
      (s'.callName n' (K.place nameSpan) ts' (K.place span)) := by
  have hcalled := hs.called hn hts hnp hp
  have hvalue := (hs.name hn hnp).bind fun _ _ ht => ht.callTyped hts (.inr hn) hp (K.place span)
  unfold Setting.callName
  obtain ⟨⟨i, b⟩, ⟨i', b'⟩, hx, hy, hb⟩ | ⟨hx, hy⟩ := rel_cases (hs.names hn).lookup <;> rw [hx, hy]
  · cases hb with
    | slot => exact hvalue
    | ofVariable => exact hvalue
    | fragment hf => exact Correspondence.callFragment hf hts hp _
    | hidden => exact hcalled
  · exact hcalled

theorem context (hs : Corresponds K s s') (hcontexts : K.contexts) (n : Nat) (hp : K.blamed span) (span' : Span) :
    K.Meets K.Match (s.context n span) (s'.context n span') := by
  obtain ⟨hsame, hcode⟩ := hs.contexts hcontexts n
  unfold Setting.context
  rw [hsame]
  split
  · next k hk => exact .ok ⟨rfl, hcode k hk⟩
  · exact Correspondence.refuse rfl hp

mutual

theorem elaborate (hs : Corresponds K s s') : {x x' : Expr} → K.Like x x' → x.Within K.blamed →
    K.Meets K.Match (s.elaborate x) (s'.elaborate x')
  | _, _, .literal l span span', h => by
    rw [Setting.elaborate, Setting.elaborate]
    refine (Correspondence.literal l h.span span').bind ?_
    rintro _ v ⟨rfl, hv⟩
    exact .ok (hs.match_const (hs.literals l span v hv))
  | _, _, .name span hn, h => by
    rw [Setting.elaborate, Setting.elaborate]
    exact hs.name hn h.span
  | _, _, .context n span span' hcontexts, h => by
    rw [Setting.elaborate, Setting.elaborate]
    exact hs.context hcontexts n h.span span'
  | _, _, .path n nameSpan span span' hx hx' hp, h => by
    have hb := (h.child (by simp [Expr.parts])).path hx
    rw [Setting.elaborate, Setting.elaborate, hx, hx']
    obtain ⟨span, rest, hfirst⟩ := hp
    refine hs.path hfirst ((Correspondence.Path.mk span rest hfirst).append [⟨n, nameSpan⟩]) ?_
      (hb _ List.mem_cons_self)
    exact List.forall_mem_append.2 ⟨hb, List.forall_mem_singleton.2 h.memberName⟩
  | _, _, .member n nameSpan span span' hpath hpath' hx, h => by
    rw [Setting.elaborate, Setting.elaborate, hpath, hpath']
    exact (elaborate hs hx (h.child (by simp [Expr.parts]))).bind fun _ _ ht => hs.member ht n h.memberName .none
  | _, _, .index span span' hx hi, h => by
    rw [Setting.elaborate, Setting.elaborate]
    refine (elaborate hs hx (h.child (by simp [Expr.parts]))).bind fun _ _ ht => ?_
    refine (elaborate hs hi (h.child (by simp [Expr.parts]))).bind fun _ _ hu => ?_
    exact hs.index ht hu h.span span'
  | _, _, .callName (n := n) nameSpan span hn hargs, h => by
    have hname := (h.child (c := .name n nameSpan) (by simp [Expr.parts])).span
    rw [Setting.elaborate.eq_def, Setting.elaborate.eq_def]
    exact (elaborateAll hs hargs h.args).bind fun _ _ hts => hs.callName hn hts hname h.span
  | _, _, .callMember (x := x) n nameSpan s₁ s₂ span hpath hx hargs, h => by
    have hc : (Expr.member x n nameSpan s₁).Within K.blamed := h.child (by simp [Expr.parts])
    have hxs : x.Within K.blamed := hc.child (by simp [Expr.parts])
    have hargs := elaborateAll hs hargs h.args
    have hcall := (elaborate hs hx hxs).bind fun _ _ ht => hargs.bind fun _ _ hts =>
      hs.callMember ht hts n hc.memberName h.span (K.place span)
    rw [Setting.elaborate.eq_def, Setting.elaborate.eq_def]
    dsimp only
    rw [Expr.path?, Expr.path?]
    obtain ⟨p, p', hp, hp', hpp⟩ | ⟨hp, hp'⟩ := rel_cases hpath <;> rw [hp, hp']
    · refine (hs.callees (hpp.append [⟨n, nameSpan⟩]) (List.forall_mem_append.2
        ⟨hxs.path hp, List.forall_mem_singleton.2 hc.memberName⟩)).bind fun a b hab => ?_
      cases hab with
      | none => exact hcall
      | some hab =>
        obtain ⟨rfl, hm, name, hmem⟩ := hab
        exact hargs.bind fun _ _ hts => hs.callStatic hts _ (fun id full he => hs.statics name id full (he ▸ hmem))
          hm h.span _ _
    · exact hcall
  | _, _, .call span span' hname hmember hx hargs, h => by
    have hcall := (elaborate hs hx (h.child (by simp [Expr.parts]))).bind fun _ _ ht =>
      (elaborateAll hs hargs h.args).bind fun _ _ hts => ht.callTyped hts (n := "expression") (.inl rfl) h.span span'
    rw [Setting.elaborate.eq_def, Setting.elaborate.eq_def]
    cases hx with
    | name => exact (hname _ _ rfl).elim
    | path | member => exact (hmember _ _ _ _ rfl).elim
    | _ => exact hcall
  | _, _, .unary op span span' hx, h => by
    rw [Setting.elaborate, Setting.elaborate]
    exact (elaborate hs hx (h.child (by simp [Expr.parts]))).bind fun _ _ ht => ht.unary op h.span span'
  | _, _, .binary op span span' hx hy, h => by
    rw [Setting.elaborate, Setting.elaborate]
    refine (elaborate hs hx (h.child (by simp [Expr.parts]))).bind fun _ _ ht => ?_
    refine (elaborate hs hy (h.child (by simp [Expr.parts]))).bind fun _ _ hu => ?_
    exact ht.binary hu op h.span span'
  | _, _, .choice (x := x) (y := y) (z := z) span span' hx hy hz, h => by
    have hxs : x.Within K.blamed := h.child (by simp [Expr.parts])
    have hys : y.Within K.blamed := h.child (by simp [Expr.parts])
    have hzs : z.Within K.blamed := h.child (by simp [Expr.parts])
    rw [Setting.elaborate, Setting.elaborate]
    refine (elaborate hs hx hxs).bind fun _ _ ht => (ht.coerceTo (K.tests _) hxs.span _).bind fun _ _ hc => ?_
    refine (elaborate hs hy hys).bind fun _ _ hu => ?_
    exact (elaborate hs hz hzs).bind fun _ _ hv => hu.choice hv hc hys.span hzs.span _ _
  | _, _, .guarded (x := x) (y := y) span span' hx hy, h => by
    have hxs : x.Within K.blamed := h.child (by simp [Expr.parts])
    have hys : y.Within K.blamed := h.child (by simp [Expr.parts])
    have hnull : K.Match (s.const .null) (s'.const .null) := hs.match_const (hs.literals .null default _ rfl)
    rw [Setting.elaborate, Setting.elaborate]
    refine (elaborate hs hx hxs).bind fun _ _ ht => (ht.coerceTo (K.tests _) hxs.span _).bind fun _ _ hc => ?_
    exact (elaborate hs hy hys).bind fun _ _ hu => hu.choice hnull hc hys.span h.span _ _

theorem elaborateAll (hs : Corresponds K s s') : {xs xs' : List Expr} → K.LikeAll xs xs' →
    (∀ x ∈ xs, x.Within K.blamed) → K.Meets (List.Forall₂ K.Match) (s.elaborateAll xs) (s'.elaborateAll xs')
  | _, _, .nil, _ => by
    rw [Setting.elaborateAll, Setting.elaborateAll]
    exact .ok .nil
  | _, _, .cons hx hxs, h => by
    obtain ⟨hxp, hxsp⟩ := List.forall_mem_cons.1 h
    rw [Setting.elaborateAll, Setting.elaborateAll]
    refine (elaborate hs hx hxp).bind fun _ _ ht => ?_
    exact (elaborateAll hs hxs hxsp).bind fun _ _ hts => .ok (.cons ht hts)

end

end Corresponds

/-- A setting of which all parts correspond to themselves. -/
structure Upholds (K : Correspondence) (s : Setting) : Prop where
  members : ∀ strict, Members K { s with strict } { s with strict }
  statics : ∀ n id name, (n, .host id name) ∈ s.types.entries → K.Takes s.world (s.host.type id)
  variants : ∀ n e name v, (n, .enum e) ∈ s.types.entries → e.variant? s.caseSensitive name = some v →
    K.value s.world (.enum e v)
  lookup : ∀ {n i b}, s.lookup n = some (i, b) → K.Bound s.caseSensitive b b
  context : ∀ {n k}, s.scope.context? n = some k → K.code k (.context n) (.context n)

namespace Upholds

variable (hs : Upholds K s) (hK : K.Reflexive)
include hs

theorem receiver : K.Match s.receiver s.receiver := ⟨rfl, hs.context s.scope.context?_zero⟩

theorem means (strict : Bool) (n : String) : Means K { s with strict } { s with strict } n n where
  lookup := by
    show Option.Rel _ (s.lookup n) (s.lookup n)
    cases hfound : s.lookup n with
    | none => exact .none
    | some x => exact .some (hs.lookup hfound)
  own hp := (hs.members strict).resolve hs.receiver .none hp fun _ => (hs.members strict).lateMember n hs.receiver.code

include hK

theorem corresponds : Corresponds K s s := by
  have hfirst {n n' : String} (h : K.name n n') : K.first n n' := by
    rw [hK.eq h]
    exact hK.first _
  have hheads : Heads K s s := by
    refine ⟨rfl, rfl, fun ns p p' hp => ?_, fun {n n'} h => ?_⟩
    · rw [hp.joinPath fun _ _ h => hK.eq (K.named h)]
    · rw [hK.eq (K.named h)]
      exact hs.means true n
  refine ⟨hs.members s.strict, hheads, hs.statics, hs.variants, fun {n n'} h => ?_, fun {n n' ts ts'} h hts => ?_, ?_,
    fun _ n => ⟨rfl, fun _ => hs.context⟩⟩
  · rw [hK.eq h]
    exact hs.means s.strict n
  · rw [hK.eq h]
    exact fun hn hp => (hs.members s.strict).callMember hs.receiver hts n hn hp _
  · rintro p p' ⟨span, rest, h⟩ hb
    exact hheads.staticCallee? (.mk span rest (hfirst h)) hb

theorem elaborate {x : Expr} (hx : x.Within K.blamed) : K.Meets K.Match (s.elaborate x) (s.elaborate x) :=
  (hs.corresponds hK).elaborate (Correspondence.like_refl hK.toShifts fun n _ => hK.first n) hx

end Upholds

end Setting

end Stencil
