import Stencil.Proofs.Expr.Places
set_option autoImplicit false

namespace Stencil

open Stencil.Expr (shifted shifted_bind)

/-- A reader answers at any base as it does at the start of a source, with every range shifted by the base. -/
def Rebases {α : Type} (reader : String → Nat → Except SyntaxError α) (shift : Nat → α → α) : Prop :=
  ∀ text base, reader text base = shifted base (shift base) (reader text 0)

namespace Placed

theorem ofLexemes_shift (text : String) (base : Nat) (ls : List Lexeme) :
    ofLexemes text base ls = shifted base (List.map (shift base)) (ofLexemes text 0 ls) := by
  induction ls with
  | nil => rfl
  | cons l ls ih =>
    obtain ⟨t, s⟩ := l
    cases t with
    | some t =>
      simp only [ofLexemes]
      refine shifted_bind ih fun ts _ => ?_
      simp [shifted, pure, Except.pure, shift, ← Span.shift_eq]
    | none => simp [ofLexemes, shifted, SyntaxError.shift, ← Span.shift_eq]

theorem rebases_ofText : Rebases ofText fun k => List.map (shift k) := fun text base => ofLexemes_shift text base _

end Placed

namespace Arguments

open Stencil.Expr (Segment)

variable {k : Nat}

theorem joined_shift {ss : List Segment} (h : ss ≠ []) :
    joined (ss.map (Segment.shift k)) = (joined ss).shift k := by
  obtain ⟨first, hfirst⟩ := Option.ne_none_iff_exists'.1 (mt List.head?_eq_none_iff.1 h)
  obtain ⟨last, hlast⟩ := Option.ne_none_iff_exists'.1 (mt List.getLast?_eq_none_iff.1 h)
  simp only [joined, List.map_map, List.head?_map, List.getLast?_map, hfirst, hlast]
  rfl

end Arguments

namespace Expr

variable {α : Type} {k : Nat}

theorem finish_shift (place : Place) (f : α → α) (a : α) (rest : List Placed) :
    finish place (f a) (rest.map (Placed.shift k)) = shifted k f (finish place a rest) := by
  cases rest <;> rfl

/-- Where a text stands only shifts what a reader answers of all of it, if it shifts what it answers of tokens. -/
theorem readWhole_shift {f : α → α} {Q : α → Prop} {reader : Nat → (ts : List Placed) → Reading α ts}
    (wanted : Wanted) (place : Place) (text : String) (hr : Reader.Sited k (fun _ => True) f Q reader) :
    readWhole wanted place reader text k = shifted k f (readWhole wanted place reader text 0) := by
  rw [readWhole_eq, readWhole_eq]
  refine shifted_bind (Placed.rebases_ofText text k) fun ts _ => ?_
  have hend : Placed.endOf k (ts.map (Placed.shift k)) = Placed.endOf 0 ts + k := by
    rw [← Placed.endOf_shift 0, Nat.zero_add]
  simp only [List.isEmpty_map, hend]
  split
  · simp [shifted, SyntaxError.shift, Span.shift, Nat.add_comm, throw, throwThe, MonadExceptOf.throw, bind, Except.bind]
  · exact (hr ⟨trivial, fun _ _ => trivial⟩).shifted_bind fun a rest => finish_shift place f a rest

theorem rebases_ofText : Rebases ofText shift := fun text _ => readWhole_shift _ _ text Arguments.sited_takeExpr

end Expr

namespace Arguments

theorem rebases_readLetBindings : Rebases readLetBindings fun k => List.map (LetBinding.shift k) :=
  fun text _ => Expr.readWhole_shift _ _ text sited_takeBindings

theorem rebases_readDefineHead : Rebases readDefineHead DefineHead.shift :=
  fun text _ => Expr.readWhole_shift _ _ text sited_takeHead

theorem rebases_readAssertion :
    Rebases readAssertion fun k => Prod.map (Expr.shift k) (Option.map (Expr.shift k)) :=
  fun text _ => Expr.readWhole_shift _ _ text sited_takeAssertion

theorem rebases_readVariableName : Rebases readVariableName Expr.Segment.shift :=
  fun text _ => Expr.readWhole_shift _ _ text sited_takeName

/-- The range of a namespace is that of its first name up to its last, of which there is at least one. -/
theorem rebases_readNamespace : Rebases readNamespace Expr.Segment.shift := by
  intro text base
  have hne : Ensures (· ≠ []) (Expr.readWhole .ofNamespace .afterNamespace segments text 0) :=
    Expr.ensures_readWhole _ _ (fun ts _ => ⟨trivial, fun _ _ => trivial⟩) (sited_takeSegments (P := fun _ => True))
  unfold readNamespace
  rw [Expr.readWhole_shift _ _ text sited_takeSegments]
  cases h : Expr.readWhole .ofNamespace .afterNamespace segments text 0 with
  | error e => rfl
  | ok ss => exact congrArg Except.ok (joined_shift (hne ss h))

end Arguments

def Adds {α : Type} (shift : Nat → α → α) : Prop := ∀ base k a, shift (base + k) a = shift k (shift base a)

theorem Rebases.carries {α : Type} {reader : String → Nat → Except SyntaxError α} {shift : Nat → α → α}
    (hr : Rebases reader shift) (hadd : Adds shift) (text : String) (base k : Nat) :
    Carries (shift k) (reader text base) (reader text (base + k)) := by
  rw [hr text base, hr text (base + k)]
  cases reader text 0 with
  | error e => exact .error
  | ok a => exact .ok (hadd base k a)

theorem Span.shift_add (base k : Nat) (s : Span) : s.shift (base + k) = (s.shift base).shift k := by
  simp [Span.shift, Nat.add_assoc]

theorem Span.shift_zero (s : Span) : s.shift 0 = s := rfl

namespace Expr

theorem Segment.adds_shift : Adds Segment.shift := by
  intro base k g
  rw [shift, Span.shift_add]
  rfl

mutual

theorem shift_add (base k : Nat) : (e : Expr) → e.shift (base + k) = (e.shift base).shift k
  | literal .. | name .. | context .. => by simp only [shift, Span.shift_add]
  | member t .. => by simp only [shift, Span.shift_add, shift_add base k t]
  | index t i _ => by simp only [shift, Span.shift_add, shift_add base k t, shift_add base k i]
  | call c args _ => by simp only [shift, Span.shift_add, shift_add base k c, shiftAll_add base k args]
  | unary _ e _ => by simp only [shift, Span.shift_add, shift_add base k e]
  | binary _ l r _ => by simp only [shift, Span.shift_add, shift_add base k l, shift_add base k r]
  | choice c t e _ => by
    simp only [shift, Span.shift_add, shift_add base k c, shift_add base k t, shift_add base k e]
  | guarded c t _ => by simp only [shift, Span.shift_add, shift_add base k c, shift_add base k t]

theorem shiftAll_add (base k : Nat) : (es : List Expr) → shiftAll (base + k) es = shiftAll k (shiftAll base es)
  | [] => by simp only [shiftAll]
  | e :: es => by simp only [shiftAll, shift_add base k e, shiftAll_add base k es]

end

theorem adds_shift : Adds shift := shift_add

mutual

theorem shift_zero : (e : Expr) → e.shift 0 = e
  | literal .. | name .. | context .. => by simp only [shift, Span.shift_zero]
  | member t .. => by simp only [shift, Span.shift_zero, shift_zero t]
  | index t i _ => by simp only [shift, Span.shift_zero, shift_zero t, shift_zero i]
  | call c args _ => by simp only [shift, Span.shift_zero, shift_zero c, shiftAll_zero args]
  | unary _ e _ => by simp only [shift, Span.shift_zero, shift_zero e]
  | binary _ l r _ => by simp only [shift, Span.shift_zero, shift_zero l, shift_zero r]
  | choice c t e _ => by simp only [shift, Span.shift_zero, shift_zero c, shift_zero t, shift_zero e]
  | guarded c t _ => by simp only [shift, Span.shift_zero, shift_zero c, shift_zero t]

theorem shiftAll_zero : (es : List Expr) → shiftAll 0 es = es
  | [] => by simp only [shiftAll]
  | e :: es => by simp only [shiftAll, shift_zero e, shiftAll_zero es]

end

end Expr

theorem Adds.map {α : Type} {shift : Nat → α → α} (h : Adds shift) : Adds fun k => List.map (shift k) := by
  intro base k as
  simp [Function.comp_def, h base k]

theorem Adds.optionMap {α : Type} {shift : Nat → α → α} (h : Adds shift) : Adds fun k => Option.map (shift k) := by
  intro base k a
  cases a with
  | none => rfl
  | some a => exact congrArg some (h base k a)

theorem LetBinding.adds_shift : Adds LetBinding.shift := by
  intro base k b
  simp only [shift, Span.shift_add, Expr.shift_add]

theorem DefineHead.adds_shift : Adds DefineHead.shift := by
  intro base k h
  obtain ⟨name, nameSpan, form⟩ := h
  cases form with
  | value lenient e => simp only [shift, DefineForm.shift, Span.shift_add, Expr.shift_add]
  | body params =>
    have hparams := Expr.Segment.adds_shift.map.optionMap base k params
    simp only [shift, DefineForm.shift, Span.shift_add, hparams]

theorem Arguments.adds_assertion : Adds fun k => Prod.map (Expr.shift k) (Option.map (Expr.shift k)) := by
  rintro base k ⟨e, message⟩
  exact Prod.ext (Expr.shift_add base k e) (Expr.adds_shift.optionMap base k message)

end Stencil
