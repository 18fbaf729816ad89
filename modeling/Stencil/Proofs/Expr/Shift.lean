import Stencil.Proofs.Expr.Arguments
import Stencil.Proofs.Expr.Grammar
set_option autoImplicit false

namespace Stencil

theorem Span.shift_eq (s : Span) (k : Nat) : s.shift k = (s.shift 0).shift k := by simp [Span.shift]

namespace Placed

variable {k : Nat} {ts : List Placed}

def shift (k : Nat) (t : Placed) : Placed := ⟨t.token, t.span.shift k⟩

@[simp] theorem isNext_shift (s : Symbol) : isNext s (ts.map (shift k)) = isNext s ts := by
  cases ts with
  | nil => rfl
  | cons t ts =>
    obtain ⟨t, span⟩ := t
    cases t <;> rfl

theorem endOf_shift (base : Nat) : endOf (base + k) (ts.map (shift k)) = endOf base ts + k := by
  unfold endOf
  rw [List.getLast?_map]
  cases ts.getLast? <;> rfl

/-- A condition holds of the ranges of all tokens, and where they end. -/
structure Marks (P : Span → Prop) (stop : Nat) (ts : List Placed) : Prop where
  stop : P (.point stop)
  token : ∀ t ∈ ts, P t.span

namespace Marks

variable {P : Span → Prop} {stop : Nat} {mid : List Placed} {t : Placed}

theorem after (h : Marks P stop (mid ++ ts)) : Marks P stop ts :=
  ⟨h.stop, fun t ht => h.token t (List.mem_append_right mid ht)⟩

theorem tail (h : Marks P stop (t :: ts)) : Marks P stop ts := ⟨h.stop, fun t ht => h.token t (.tail _ ht)⟩

end Marks

end Placed

namespace Expr

mutual

/-- The same expression read from a text that stands `k` bytes further on. -/
def shift (k : Nat) : Expr → Expr
  | literal v s => literal v (s.shift k)
  | name n s => name n (s.shift k)
  | context n s => context n (s.shift k)
  | member t n ns s => member (t.shift k) n (ns.shift k) (s.shift k)
  | index t i s => index (t.shift k) (i.shift k) (s.shift k)
  | call c args s => call (c.shift k) (shiftAll k args) (s.shift k)
  | unary op e s => unary op (e.shift k) (s.shift k)
  | binary op l r s => binary op (l.shift k) (r.shift k) (s.shift k)
  | choice c t e s => choice (c.shift k) (t.shift k) (e.shift k) (s.shift k)
  | guarded c t s => guarded (c.shift k) (t.shift k) (s.shift k)

def shiftAll (k : Nat) : List Expr → List Expr
  | [] => []
  | e :: es => e.shift k :: shiftAll k es

end

variable {k : Nat}

@[simp] theorem span_shift (e : Expr) : (e.shift k).span = e.span.shift k := by cases e <;> simp [shift, span]

@[simp] theorem upTo_shift (s t : Span) : upTo (s.shift k) (t.shift k) = (upTo s t).shift k := rfl

@[simp] theorem shift_withSpan (s : Span) (e : Expr) : (e.withSpan s).shift k = (e.shift k).withSpan (s.shift k) := by
  cases e <;> simp [shift, withSpan]

def Segment.shift (k : Nat) (s : Segment) : Segment := ⟨s.name, s.span.shift k⟩

/-- An answer with every range shifted, `f` shifting those of what was read. -/
def shifted {α β : Type} (k : Nat) (f : α → β) : Except SyntaxError α → Except SyntaxError β
  | .ok a => .ok (f a)
  | .error e => .error (e.shift k)

theorem shifted_bind {α α' β β' : Type} {f : α → α'} {g : β → β'} {x : Except SyntaxError α}
    {x' : Except SyntaxError α'} {next : α → Except SyntaxError β} {next' : α' → Except SyntaxError β'}
    (hx : x' = shifted k f x) (h : ∀ a, x = .ok a → next' (f a) = shifted k g (next a)) :
    x' >>= next' = shifted k g (x >>= next) := by
  subst hx
  cases x with
  | error e => rfl
  | ok a => exact h a rfl

/-- Two readings of which the second answers as the first does, with every range shifted. They fail only where a
condition holds of the place, and another one holds of what they read and of the tokens after it. -/
inductive Reread {α : Type} (k : Nat) (P : Span → Prop) (f : α → α) (Q : α → List Placed → Prop) :
    Except SyntaxError (α × List Placed) → Except SyntaxError (α × List Placed) → Prop
  | ok {a b : α} {rest : List Placed} : b = f a → Q a rest →
    Reread k P f Q (.ok (a, rest)) (.ok (b, rest.map (Placed.shift k)))
  | error {e : SyntaxError} : P e.span → Reread k P f Q (.error e) (.error (e.shift k))

namespace Reread

variable {α β : Type} {P : Span → Prop} {f : α → α} {g : β → β} {Q : α → List Placed → Prop}
  {R : β → List Placed → Prop} {x y : Except SyntaxError (α × List Placed)}

theorem bind {next next' : α × List Placed → Except SyntaxError (β × List Placed)} (hx : Reread k P f Q x y)
    (h : ∀ a rest, Q a rest → Reread k P g R (next (a, rest)) (next' (f a, rest.map (Placed.shift k)))) :
    Reread k P g R (x >>= next) (y >>= next') := by
  cases hx with
  | ok hb ha =>
    subst hb
    exact h _ _ ha
  | error he => exact .error he

theorem imp {Q' : α → List Placed → Prop} (hx : Reread k P f Q x y) (h : ∀ a rest, Q a rest → Q' a rest) :
    Reread k P f Q' x y := by
  cases hx with
  | ok hb ha => exact .ok hb (h _ _ ha)
  | error he => exact .error he

theorem fails (hx : Reread k P f Q x y) : FailsOnly (fun e => P e.span) x := by
  cases hx with
  | ok => exact .ok
  | error he => exact .error he

theorem reads {a : α} {rest : List Placed} (hx : Reread k P f Q x y) (h : x = .ok (a, rest)) : Q a rest := by
  subst h
  cases hx with
  | ok _ ha => exact ha

/-- A computation after the readings is shifted if it shifts with what they read. -/
theorem shifted_bind {γ : Type} {h : γ → γ} {next next' : α × List Placed → Except SyntaxError γ}
    (hx : Reread k P f Q x y)
    (hn : ∀ a rest, next' (f a, rest.map (Placed.shift k)) = shifted k h (next (a, rest))) :
    y >>= next' = shifted k h (x >>= next) := by
  cases hx with
  | ok hb ha =>
    subst hb
    exact hn _ _
  | error he => rfl

theorem take (s : Symbol) {stop : Nat} {ts : List Placed} (hs : Placed.Marks P stop ts) :
    Reread k P (Span.shift · k) (fun span rest => ts = ⟨.fixed s, span⟩ :: rest) (take s stop ts)
      (take s (stop + k) (ts.map (Placed.shift k))) := by
  cases ts with
  | nil => exact .error hs.stop
  | cons t ts =>
    have ht := hs.token t List.mem_cons_self
    obtain ⟨t, span⟩ := t
    cases t with
    | fixed t =>
      change Reread _ _ _ _ _ (Expr.take s (stop + k) (⟨.fixed t, span.shift k⟩ :: ts.map (Placed.shift k)))
      simp only [Expr.take, expect]
      by_cases h : t = s
      · rw [if_pos h, if_pos h, h]
        exact .ok rfl rfl
      · rw [if_neg h, if_neg h]
        exact .error ht
    | _ => exact .error ht

end Reread

theorem ofToken?_shift (t : Placed) :
    ofToken? (t.shift k) = (ofToken? t).map (shifted k (Expr.shift k)) := by
  obtain ⟨t, span⟩ := t
  cases t with
  | fixed s => cases s <;> simp [Placed.shift, ofToken?, shifted, shift]
  | integer v suffix =>
    simp only [Placed.shift, ofToken?]
    split <;> simp [shifted, shift, SyntaxError.shift]
  | _ => simp [Placed.shift, ofToken?, shifted, shift]

theorem span_of_ofToken?_error {t : Placed} {e : SyntaxError} (h : ofToken? t = some (.error e)) : e.span = t.span := by
  obtain ⟨t, span⟩ := t
  cases t with
  | fixed s => cases s <;> cases h
  | integer v suffix =>
    simp only [ofToken?] at h
    split at h
    · cases h
    · cases h
      rfl
  | _ => cases h

namespace Level

@[simp] def shift (k : Nat) : Level → Level
  | operators s left => operators s (left.shift k)
  | suffixes e => suffixes (e.shift k)
  | arguments c => arguments (c.shift k)
  | l => l

variable {stop : Nat} {ts : List Placed}

@[simp] theorem operator?_shift (s : Nat) : operator? s (ts.map (Placed.shift k)) = operator? s ts := by
  cases ts with
  | nil => rfl
  | cons t ts =>
    obtain ⟨t, span⟩ := t
    cases t <;> rfl

@[simp] theorem sign?_shift :
    sign? (ts.map (Placed.shift k)) = (sign? ts).map fun p => (p.1, p.2.shift k) := by
  cases ts with
  | nil => rfl
  | cons t ts =>
    obtain ⟨t, span⟩ := t
    cases t with
    | fixed s =>
      simp only [List.map_cons, Placed.shift, sign?, Option.map_map]
      rfl
    | _ => rfl

theorem withArgument_shift (arg e : Expr) :
    (withArgument arg e).shift k = withArgument (arg.shift k) (e.shift k) := by
  cases e <;> simp [withArgument, Expr.shift, shiftAll]

theorem Takes.length_lt {l : Level} {mid rest : List Placed} {e : Expr} (h : Takes l mid e rest) (hl : l.least = 1) :
    rest.length < (mid ++ rest).length := by
  have := length_rest_le 0 (h.read 0)
  omega

/-- A level takes tokens by the grammar or finds fault with a token or with the end of them, and a reader answers
alike on the tokens shifted. -/
def Reads (k : Nat) (P : Span → Prop) (stop : Nat) (reader : Level → List Placed → Outcome) (l : Level)
    (ts : List Placed) : Prop :=
  Placed.Marks P stop ts → Reread k P (Expr.shift k) (fun e rest => ∃ mid, ts = mid ++ rest ∧ Takes l mid e rest)
    (read stop l ts) (reader (l.shift k) (ts.map (Placed.shift k)))

def Below (k : Nat) (P : Span → Prop) (stop : Nat) (reader : Level → List Placed → Outcome) (l : Level)
    (ts : List Placed) : Prop :=
  ∀ l' ts', weight l' ts' < weight l ts → Reads k P stop reader l' ts'

variable {P : Span → Prop} {next : Level → List Placed → Outcome}

theorem reads_expression (ih : Below k P stop next expression ts) :
    Reads k P stop (step next (stop + k)) expression ts := by
  intro hs
  rw [read_eq_step stop]
  simp only [shift, step, Placed.isNext_shift]
  split
  · refine (ih conditional ts (weight_of_rank _ (by decide)) hs).imp ?_
    rintro e rest ⟨mid, rfl, h⟩
    exact ⟨mid, rfl, .whole h⟩
  next hi =>
  refine (ih (operands 0) ts (weight_of_rank _ (by decide)) hs).bind ?_
  rintro test rest ⟨c, rfl, hc⟩
  have hi' := isNext_front ⟨rest, rfl⟩ (Bool.not_eq_true _ ▸ hi)
  have hlt := hc.length_lt rfl
  rcases isNext_cases .question rest with ⟨mark, rest, rfl⟩ | hq
  · simp only [Placed.isNext_shift, isNext_fixed, if_true, ← List.map_tail, List.tail_cons]
    rw [List.length_cons] at hlt
    refine (ih expression rest (weight_of_length (by omega)) hs.after.tail).bind ?_
    rintro yes _ ⟨y, rfl, hy⟩
    refine (Reread.take .colon hs.after.tail.after).bind ?_
    rintro colon rest rfl
    have hlt₁ := hy.length_lt rfl
    rw [List.length_cons] at hlt₁
    refine (ih expression rest (weight_of_length (by omega)) hs.after.tail.after.tail).bind ?_
    rintro no rest ⟨n, rfl, hn⟩
    exact .ok (by simp [Expr.shift]) ⟨_, by simp, .choice hi' hc hy hn⟩
  · simp only [Placed.isNext_shift, hq]
    exact .ok rfl ⟨c, rfl, .plain hi' hc hq⟩

theorem reads_conditional (ih : Below k P stop next conditional ts) :
    Reads k P stop (step next (stop + k)) conditional ts := by
  intro hs
  rw [read_eq_step stop]
  simp only [shift, step]
  refine (Reread.take .ifWord hs).bind ?_
  rintro word rest rfl
  refine (ih (operands 0) rest (weight_of_length (by simp)) hs.tail).bind ?_
  rintro test rest ⟨c, rfl, hc⟩
  have hlt := hc.length_lt rfl
  simp only [List.isEmpty_map]
  split
  · exact .error hs.stop
  refine (ih expression rest (weight_of_length (by simp only [List.length_cons]; omega)) hs.tail.after).bind ?_
  rintro yes rest ⟨y, rfl, hy⟩
  have hlt₁ := hy.length_lt rfl
  rcases isNext_cases .elseWord rest with ⟨other, rest, rfl⟩ | he
  · simp only [Placed.isNext_shift, isNext_fixed, if_true, ← List.map_tail, List.tail_cons]
    rw [List.length_cons] at hlt₁
    refine (ih expression rest (weight_of_length (by simp only [List.length_cons]; omega))
      hs.tail.after.after.tail).bind ?_
    rintro no rest ⟨n, rfl, hn⟩
    exact .ok (by simp [Expr.shift]) ⟨_, by simp, .branches hc hy hn⟩
  · simp only [Placed.isNext_shift, he]
    exact .ok (by simp [Expr.shift]) ⟨_, by simp, .guarded hc hy he⟩

theorem reads_operands {s : Nat} (ih : Below k P stop next (operands s) ts) :
    Reads k P stop (step next (stop + k)) (operands s) ts := by
  intro hs
  rw [read_eq_step stop]
  simp only [shift, step]
  refine (ih operand ts (weight_of_rank _ (by simp [rank])) hs).bind ?_
  rintro left rest ⟨a, rfl, ha⟩
  refine (ih (operators s left) rest (weight_of_length (ha.length_lt rfl)) hs.after).imp ?_
  rintro e rest ⟨b, rfl, hb⟩
  exact ⟨a ++ b, by simp, .operands ha hb⟩

theorem reads_operators {s : Nat} {left : Expr} (ih : Below k P stop next (operators s left) ts) :
    Reads k P stop (step next (stop + k)) (operators s left) ts := by
  intro hs
  rw [read_eq_step stop]
  simp only [shift, step, operator?_shift]
  cases hop : operator? s ts with
  | none => exact .ok rfl ⟨[], rfl, .ends hop⟩
  | some op =>
    obtain ⟨symbol, span, rest, rfl, ho, hk⟩ := exists_of_operator? hop
    simp only [← List.map_tail, List.tail_cons]
    refine (ih (operands (rightStrength op)) rest (weight_of_length (by simp)) hs.tail).bind ?_
    rintro right rest ⟨r, rfl, hr⟩
    have hlt := hr.length_lt rfl
    have hread := ih (operators s (binary op left right (upTo left.span right.span))) rest
      (weight_of_length (by simp only [List.length_cons]; omega)) hs.tail.after
    simp only [shift, Expr.shift] at hread
    simp only [span_shift, upTo_shift]
    refine hread.imp ?_
    rintro e rest ⟨b, rfl, hb⟩
    exact ⟨⟨_, span⟩ :: (r ++ b), by simp, .operator ho hk hr hb⟩

theorem reads_operand (ih : Below k P stop next operand ts) :
    Reads k P stop (step next (stop + k)) operand ts := by
  intro hs
  rw [read_eq_step stop]
  simp only [shift, step, sign?_shift, Placed.isNext_shift]
  cases hop : sign? ts with
  | none =>
    simp only [Option.map_none]
    split
    · refine (ih conditional ts (weight_of_rank _ (by decide)) hs).imp ?_
      rintro e rest ⟨mid, rfl, h⟩
      exact ⟨mid, rfl, .branching h⟩
    · refine (ih applied ts (weight_of_rank _ (by decide)) hs).imp ?_
      rintro e rest ⟨mid, rfl, h⟩
      exact ⟨mid, rfl, .application h⟩
  | some p =>
    obtain ⟨op, span⟩ := p
    obtain ⟨symbol, rest, rfl, ho⟩ := exists_of_sign? hop
    simp only [Option.map_some, ← List.map_tail, List.tail_cons]
    refine (ih operand rest (weight_of_length (by simp)) hs.tail).bind ?_
    rintro e rest ⟨mid, rfl, h⟩
    exact .ok (by simp [Expr.shift]) ⟨_ :: mid, rfl, .unary ho h⟩

theorem reads_applied (ih : Below k P stop next applied ts) :
    Reads k P stop (step next (stop + k)) applied ts := by
  intro hs
  rw [read_eq_step stop]
  simp only [shift, step]
  refine (ih atom ts (weight_of_rank _ (by decide)) hs).bind ?_
  rintro e rest ⟨a, rfl, ha⟩
  refine (ih (suffixes e) rest (weight_of_length (ha.length_lt rfl)) hs.after).imp ?_
  rintro e' rest ⟨b, rfl, hb⟩
  exact ⟨a ++ b, by simp, .applied ha hb⟩

theorem reads_suffixes {e₀ : Expr} (ih : Below k P stop next (suffixes e₀) ts) :
    Reads k P stop (step next (stop + k)) (suffixes e₀) ts := by
  intro hs
  rw [read_eq_step stop]
  simp only [shift, step, Placed.isNext_shift, ← List.map_tail]
  rcases isNext_cases .dot ts with ⟨dot, rest, rfl⟩ | hd
  · simp only [isNext_fixed, if_true, List.tail_cons]
    cases rest with
    | nil => exact .error hs.stop
    | cons t rest =>
      simp only [List.map_cons, Placed.shift]
      cases hn : memberName? t.token with
      | none => exact .error (hs.token t (by simp))
      | some n =>
        have hread := ih (suffixes (member e₀ n t.span (upTo e₀.span t.span))) rest
          (weight_of_length (by simp only [List.length_cons]; omega)) hs.tail.tail
        simp only [shift, Expr.shift] at hread
        simp only [span_shift, upTo_shift]
        refine hread.imp ?_
        rintro e rest ⟨mid, rfl, h⟩
        exact ⟨_ :: t :: mid, rfl, .member hn h⟩
  rcases isNext_cases .lParen ts with ⟨opening, rest, rfl⟩ | hp
  · simp only [hd, isNext_fixed, if_true, List.tail_cons]
    refine (ih (arguments e₀) rest (weight_of_length (by simp)) hs.tail).bind ?_
    rintro e rest ⟨a, rfl, ha⟩
    have hlt := ha.length_lt rfl
    refine (ih (suffixes e) rest (weight_of_length (by simp only [List.length_cons]; omega)) hs.tail.after).imp ?_
    rintro e' rest ⟨b, rfl, hb⟩
    exact ⟨⟨_, opening⟩ :: (a ++ b), by simp, .call ha hb⟩
  rcases isNext_cases .lBracket ts with ⟨opening, rest, rfl⟩ | hb
  · simp only [hd, hp, isNext_fixed, if_true, List.tail_cons]
    refine (ih expression rest (weight_of_length (by simp)) hs.tail).bind ?_
    rintro i _ ⟨a, rfl, ha⟩
    refine (Reread.take .rBracket hs.tail.after).bind ?_
    rintro closing rest rfl
    have hlt := ha.length_lt rfl
    rw [List.length_cons] at hlt
    have hread := ih (suffixes (index e₀ i (upTo e₀.span closing))) rest
      (weight_of_length (by simp only [List.length_cons]; omega)) hs.tail.after.tail
    simp only [shift, Expr.shift] at hread
    simp only [span_shift, upTo_shift]
    refine hread.imp ?_
    rintro e' rest ⟨b, rfl, hb⟩
    exact ⟨⟨_, opening⟩ :: (a ++ ⟨_, closing⟩ :: b), by simp, .index ha hb⟩
  · simp only [hd, hp, hb]
    exact .ok rfl ⟨[], rfl, .bare hd hp hb⟩

theorem reads_arguments {c : Expr} (ih : Below k P stop next (arguments c) ts) :
    Reads k P stop (step next (stop + k)) (arguments c) ts := by
  intro hs
  rw [read_eq_step stop]
  cases ts with
  | nil => exact .error hs.stop
  | cons t ts =>
    have hnext (s : Symbol) : Placed.isNext s (t.shift k :: ts.map (Placed.shift k)) = Placed.isNext s (t :: ts) := by
      rw [← List.map_cons, Placed.isNext_shift]
    simp only [shift, List.map_cons, step, hnext]
    rcases isNext_cases .rParen (t :: ts) with ⟨closing, rest, heq⟩ | hne
    · obtain ⟨rfl, rfl⟩ := List.cons.inj heq
      simp only [isNext_fixed, if_true]
      exact .ok (by simp [Expr.shift, shiftAll, Placed.shift]) ⟨_, rfl, .noArguments⟩
    simp only [hne]
    refine (ih expression (t :: ts) (weight_of_rank _ (by simp [rank])) hs).bind ?_
    rintro arg rest ⟨a, hts, ha⟩
    have hlt := ha.length_lt rfl
    rw [hts] at hs hne ih
    have hne' := isNext_front ⟨rest, rfl⟩ hne
    simp only [Placed.isNext_shift]
    split
    · refine (Reread.take .rParen hs.after).bind ?_
      rintro closing rest rfl
      exact .ok (by simp [Expr.shift, shiftAll]) ⟨_, by simp [hts], .lastArgument hne' ha⟩
    · refine (Reread.take .comma hs.after).bind ?_
      rintro comma rest rfl
      rw [List.length_cons] at hlt
      refine (ih (arguments c) rest (weight_of_length (by omega)) hs.after.tail).bind ?_
      rintro e rest ⟨b, rfl, hb⟩
      obtain ⟨args, span, rfl⟩ := call_of_arguments (hb.read 0)
      exact .ok (withArgument_shift _ _).symm ⟨_, by simp [hts], .moreArguments hne' ha hb⟩

theorem reads_atom (ih : Below k P stop next atom ts) :
    Reads k P stop (step next (stop + k)) atom ts := by
  intro hs
  rw [read_eq_step stop]
  cases ts with
  | nil => exact .error hs.stop
  | cons t ts =>
    have ht := hs.token t List.mem_cons_self
    have hnext (s : Symbol) : Placed.isNext s (t.shift k :: ts.map (Placed.shift k)) = Placed.isNext s (t :: ts) := by
      rw [← List.map_cons, Placed.isNext_shift]
    simp only [shift, List.map_cons, step, hnext, ofToken?_shift]
    cases hof : ofToken? t with
    | some r =>
      cases r with
      | ok e => exact .ok rfl ⟨[t], rfl, .token hof⟩
      | error e => exact .error (span_of_ofToken?_error hof ▸ ht)
    | none =>
      simp only [Option.map_none]
      rcases isNext_cases .lParen (t :: ts) with ⟨opening, rest, heq⟩ | hp
      · obtain ⟨rfl, rfl⟩ := List.cons.inj heq
        simp only [isNext_fixed, if_true]
        refine (ih expression ts (weight_of_length (by simp)) hs.tail).bind ?_
        rintro e _ ⟨a, rfl, ha⟩
        refine (Reread.take .rParen hs.tail.after).bind ?_
        rintro closing rest rfl
        exact .ok (by simp [Placed.shift]) ⟨_, by simp, .enclosed ha⟩
      · simp only [hp]
        exact .error ht

/-- Reading on with what answers alike on less, a step answers alike. -/
theorem reads_step (l : Level) (ts : List Placed) (ih : Below k P stop next l ts) :
    Reads k P stop (step next (stop + k)) l ts := by
  cases l with
  | expression => exact reads_expression ih
  | conditional => exact reads_conditional ih
  | operands s => exact reads_operands ih
  | operators s left => exact reads_operators ih
  | operand => exact reads_operand ih
  | applied => exact reads_applied ih
  | suffixes e => exact reads_suffixes ih
  | arguments c => exact reads_arguments ih
  | atom => exact reads_atom ih

theorem reads (k : Nat) (P : Span → Prop) (stop : Nat) (l : Level) (ts : List Placed) :
    Reads k P stop (read (stop + k)) l ts := by
  have hstep : step (read (stop + k)) (stop + k) = read (stop + k) :=
    funext fun l => funext fun ts => (read_eq_step (stop + k) l ts).symm
  exact induct (fun l ts ih => hstep ▸ reads_step l ts ih) l ts

theorem read_eq_ok_iff {l : Level} {e : Expr} {rest : List Placed} :
    read stop l ts = .ok (e, rest) ↔ ∃ mid, ts = mid ++ rest ∧ Takes l mid e rest := by
  constructor
  · exact (reads 0 (fun _ => True) stop l ts ⟨trivial, fun _ _ => trivial⟩).reads
  · rintro ⟨mid, rfl, h⟩
    exact h.read stop

end Level

end Expr

def LetBinding.shift (k : Nat) (b : LetBinding) : LetBinding := ⟨b.name, b.nameSpan.shift k, b.value.shift k⟩

def DefineForm.shift (k : Nat) : DefineForm → DefineForm
  | value lenient e => value lenient (e.shift k)
  | body params => body (params.map (List.map (Expr.Segment.shift k)))

def DefineHead.shift (k : Nat) (h : DefineHead) : DefineHead := ⟨h.name, h.nameSpan.shift k, h.form.shift k⟩

end Stencil
