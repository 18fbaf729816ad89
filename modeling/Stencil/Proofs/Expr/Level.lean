import Stencil.Expr.Parser
import Stencil.Proofs.Except
set_option autoImplicit false

namespace Stencil

def Parsed.seen {α : Type} {n : Nat} (p : Parsed α n) : α × List Placed := (p.value, p.rest)

def Extended.seen {α : Type} {n : Nat} (p : Extended α n) : α × List Placed := (p.value, p.rest)

namespace Expr

theorem parsed_of_seen {α : Type} {n : Nat} {x : Except SyntaxError (Parsed α n)} {a : α} {rest : List Placed}
    (h : x.map Parsed.seen = .ok (a, rest)) : ∃ hl, x = .ok ⟨a, rest, hl⟩ := by
  obtain ⟨p, hp, hs⟩ := exists_of_map_ok h
  obtain ⟨rfl, rfl⟩ := Prod.mk.inj hs
  exact ⟨p.shorter, hp⟩

theorem expect_self (s : Symbol) (stop : Nat) (span : Span) (rest : List Placed) :
    expect s stop (⟨.fixed s, span⟩ :: rest) = .ok ⟨span, rest, Placed.length_rest_lt rest⟩ := by
  simp [expect]

/-- A level of the grammar, with what was read before it where the level goes on from there. -/
inductive Level where
  | expression
  | conditional
  | operands (strength : Nat)
  | operators (strength : Nat) (left : Expr)
  | operand
  | applied
  | suffixes (e : Expr)
  | arguments (callee : Expr)
  | atom

abbrev Outcome : Type := Except SyntaxError (Expr × List Placed)

def take (s : Symbol) (stop : Nat) (ts : List Placed) : Except SyntaxError (Span × List Placed) :=
  (expect s stop ts).map Parsed.seen

namespace Level

/-- Reads at a level of the grammar. The arguments of a call are read together with the call. -/
def read (stop : Nat) : Level → List Placed → Outcome
  | expression, ts => (parse stop ts).map Parsed.seen
  | conditional, ts => (parseIf stop ts).map Parsed.seen
  | operands k, ts => (parseBinary stop k ts).map Parsed.seen
  | operators k left, ts => (parseOperators stop k left ts).map Extended.seen
  | operand, ts => (parseOperand stop ts).map Parsed.seen
  | applied, ts => (parseApplied stop ts).map Parsed.seen
  | suffixes e, ts => (parseSuffixes stop e ts).map Extended.seen
  | arguments c, ts => (parseArguments stop ts).map fun p => (call c p.value.1 (upTo c.span p.value.2), p.rest)
  | atom, ts => (parseAtom stop ts).map Parsed.seen

/-- The operator that comes next, when it is at least of a given strength. -/
def operator? (k : Nat) : List Placed → Option BinaryOp
  | ⟨.fixed s, _⟩ :: _ => (binaryOp? s).filter (k ≤ ·.strength)
  | _ => none

/-- The operator before an operand that comes next, and its range. -/
def sign? : List Placed → Option (UnaryOp × Span)
  | ⟨.fixed s, span⟩ :: _ => (unaryOp? s).map (·, span)
  | _ => none

/-- Strength of the operators within the right operand of an operator. -/
def rightStrength (op : BinaryOp) : Nat := if op.groupsRight then op.strength else op.strength + 1

def withArgument (arg : Expr) : Expr → Expr
  | call c args span => call c (arg :: args) span
  | e => e

def step (next : Level → List Placed → Outcome) (stop : Nat) : Level → List Placed → Outcome
  | expression, ts =>
    if Placed.isNext .ifWord ts then next conditional ts
    else do
      let (test, rest) ← next (operands 0) ts
      if Placed.isNext .question rest then do
        let (yes, rest) ← next expression rest.tail
        let (_, rest) ← take .colon stop rest
        let (no, rest) ← next expression rest
        return (choice test yes no (upTo test.span no.span), rest)
      else return (test, rest)
  | conditional, ts => do
    let (word, rest) ← take .ifWord stop ts
    let (test, rest) ← next (operands 0) rest
    if rest.isEmpty then throw ⟨.unexpected none .afterCondition, .point stop⟩
    let (yes, rest) ← next expression rest
    if Placed.isNext .elseWord rest then do
      let (no, rest) ← next expression rest.tail
      return (choice test yes no (upTo word no.span), rest)
    else return (guarded test yes (upTo word yes.span), rest)
  | operands k, ts => do
    let (left, rest) ← next operand ts
    next (operators k left) rest
  | operators k left, ts =>
    match operator? k ts with
    | some op => do
      let (right, rest) ← next (operands (rightStrength op)) ts.tail
      next (operators k (binary op left right (upTo left.span right.span))) rest
    | none => return (left, ts)
  | operand, ts =>
    match sign? ts with
    | some (op, span) => do
      let (e, rest) ← next operand ts.tail
      return (unary op e (upTo span e.span), rest)
    | none => if Placed.isNext .ifWord ts then next conditional ts else next applied ts
  | applied, ts => do
    let (e, rest) ← next atom ts
    next (suffixes e) rest
  | suffixes e, ts =>
    if Placed.isNext .dot ts then
      match ts.tail with
      | [] => throw ⟨.unexpected none .afterDot, .point stop⟩
      | t :: rest =>
        match memberName? t.token with
        | some n => next (suffixes (member e n t.span (upTo e.span t.span))) rest
        | none => throw ⟨.unexpected (some t.token) .afterDot, t.span⟩
    else if Placed.isNext .lParen ts then do
      let (e, rest) ← next (arguments e) ts.tail
      next (suffixes e) rest
    else if Placed.isNext .lBracket ts then do
      let (i, rest) ← next expression ts.tail
      let (closing, rest) ← take .rBracket stop rest
      next (suffixes (index e i (upTo e.span closing))) rest
    else return (e, ts)
  | arguments c, ts =>
    match ts with
    | [] => throw ⟨.unexpected none .inArguments, .point stop⟩
    | t :: rest =>
      if Placed.isNext .rParen (t :: rest) then return (call c [] (upTo c.span t.span), rest)
      else do
        let (arg, rest) ← next expression (t :: rest)
        if Placed.isNext .rParen rest then
          let (closing, rest) ← take .rParen stop rest
          return (call c [arg] (upTo c.span closing), rest)
        else
          let (_, rest) ← take .comma stop rest
          let (e, rest) ← next (arguments c) rest
          return (withArgument arg e, rest)
  | atom, ts =>
    match ts with
    | [] => throw ⟨.unexpected none .inExpression, .point stop⟩
    | t :: rest =>
      match ofToken? t with
      | some (.ok e) => return (e, rest)
      | some (.error e) => throw e
      | none =>
        if Placed.isNext .lParen (t :: rest) then do
          let (e, rest) ← next expression rest
          let (closing, rest) ← take .rParen stop rest
          return (e.withSpan (upTo t.span closing), rest)
        else throw ⟨.unexpected (some t.token) .inExpression, t.span⟩

section Steps

variable {α β γ : Type} {n : Nat}

theorem map_bind_parsed {x : Except SyntaxError (Parsed α n)} {f : Parsed α n → Except SyntaxError β} {g : β → γ}
    {next : α × List Placed → Except SyntaxError γ}
    (h : ∀ a rest hl, (f ⟨a, rest, hl⟩).map g = next (a, rest)) :
    (x >>= f).map g = x.map Parsed.seen >>= next := by
  cases x with
  | error e => rfl
  | ok p => exact h p.value p.rest p.shorter

theorem map_bind_last {x : Except SyntaxError (Extended α n)} {f : Extended α n → Except SyntaxError β}
    {g : β → α × List Placed} (h : ∀ a rest hl, (f ⟨a, rest, hl⟩).map g = .ok (a, rest)) :
    (x >>= f).map g = x.map Extended.seen := by
  cases x with
  | error e => rfl
  | ok p => exact h p.value p.rest p.within

end Steps

theorem isNext_fixed (s : Symbol) (span : Span) (rest : List Placed) :
    Placed.isNext s (⟨.fixed s, span⟩ :: rest) = true := by
  simp [Placed.isNext]

theorem isNext_cases (s : Symbol) (ts : List Placed) :
    (∃ span rest, ts = ⟨.fixed s, span⟩ :: rest) ∨ Placed.isNext s ts = false := by
  match ts with
  | [] => exact .inr rfl
  | ⟨t, span⟩ :: rest =>
    cases t with
    | fixed t =>
      by_cases h : t = s
      · exact .inl ⟨span, rest, by rw [h]⟩
      · exact .inr (by simpa [Placed.isNext] using h)
    | _ => exact .inr rfl

variable (stop : Nat)

theorem read_expression (ts : List Placed) :
    read stop expression ts = step (read stop) stop expression ts := by
  simp only [read, step]
  rw [parse]
  split
  · rfl
  · refine map_bind_parsed fun test rest h => ?_
    rcases isNext_cases .question rest with ⟨span, rest, rfl⟩ | hq
    · simp only [isNext_fixed, if_true, List.tail_cons]
      exact map_bind_parsed fun yes _ _ => map_bind_parsed fun _ _ _ => map_bind_parsed fun no _ _ => rfl
    · simp only [hq]
      split
      · simp [Placed.isNext] at hq
      · rfl

theorem read_conditional (ts : List Placed) :
    read stop conditional ts = step (read stop) stop conditional ts := by
  simp only [read, step, take]
  rw [parseIf]
  refine map_bind_parsed fun word rest h => map_bind_parsed fun test rest₁ h₁ => ?_
  simp only
  split
  · rfl
  · refine map_bind_parsed fun yes rest₂ h₂ => ?_
    rcases isNext_cases .elseWord rest₂ with ⟨span, rest₂, rfl⟩ | he
    · simp only [isNext_fixed, if_true, List.tail_cons]
      exact map_bind_parsed fun no _ _ => rfl
    · simp only [he]
      split
      · simp [Placed.isNext] at he
      · rfl

theorem read_operands (k : Nat) (ts : List Placed) :
    read stop (operands k) ts = step (read stop) stop (operands k) ts := by
  simp only [read, step]
  rw [parseBinary]
  exact map_bind_parsed fun left rest _ => map_bind_last fun _ _ _ => rfl

theorem read_operators (k : Nat) (left : Expr) (ts : List Placed) :
    read stop (operators k left) ts = step (read stop) stop (operators k left) ts := by
  simp only [read, step]
  rw [parseOperators.eq_def]
  split
  · next s span rest =>
    cases ho : binaryOp? s with
    | none => simp only [operator?, ho, Option.filter_none]; rfl
    | some op =>
      simp only [operator?, ho, Option.filter_some]
      by_cases hk : op.strength < k
      · simp only [hk, if_true, decide_eq_true_eq, Nat.not_le.2 hk, if_false]; rfl
      · simp only [hk, decide_eq_true_eq, Nat.not_lt.1 hk, if_true, if_false, List.tail_cons, rightStrength]
        exact map_bind_parsed fun right _ _ => map_bind_last fun _ _ _ => rfl
  · next hno =>
    have : operator? k ts = none := by
      unfold operator?
      split
      · next s span rest => exact (hno s span rest rfl).elim
      · rfl
    rw [this]
    rfl

theorem read_operand (ts : List Placed) : read stop operand ts = step (read stop) stop operand ts := by
  simp only [read, step]
  rw [parseOperand.eq_def]
  split
  · next s span rest =>
    cases ho : unaryOp? s with
    | none =>
      simp only [sign?, ho, Option.map_none, Placed.isNext, beq_iff_eq]
      split <;> rfl
    | some op =>
      simp only [sign?, ho, Option.map_some, List.tail_cons]
      exact map_bind_parsed fun e _ _ => rfl
  · next hno =>
    cases ts with
    | nil => rfl
    | cons p rest =>
      obtain ⟨t, span⟩ := p
      cases t with
      | fixed s => exact (hno s span rest rfl).elim
      | _ => rfl

theorem read_applied (ts : List Placed) : read stop applied ts = step (read stop) stop applied ts := by
  simp only [read, step]
  rw [parseApplied]
  exact map_bind_parsed fun e _ _ => map_bind_last fun _ _ _ => rfl

theorem read_suffixes (e : Expr) (ts : List Placed) :
    read stop (suffixes e) ts = step (read stop) stop (suffixes e) ts := by
  simp only [read, step]
  rw [parseSuffixes.eq_def]
  split
  · next span rest =>
    simp only [isNext_fixed, if_true, List.tail_cons]
    cases rest with
    | nil => rfl
    | cons t rest =>
      simp only
      cases memberName? t.token with
      | none => rfl
      | some n => exact map_bind_last fun _ _ _ => rfl
  · next span rest =>
    have hd : Placed.isNext .dot (⟨.fixed .lParen, span⟩ :: rest) = false := by rfl
    simp only [hd, isNext_fixed, if_true, List.tail_cons]
    cases parseArguments stop rest with
    | error e => rfl
    | ok p => exact map_bind_last fun _ _ _ => rfl
  · next span rest =>
    exact map_bind_parsed fun i _ _ => map_bind_parsed fun closing _ _ => map_bind_last fun _ _ _ => rfl
  · next hd hp hb =>
    rcases isNext_cases .dot ts with ⟨span, rest, rfl⟩ | hd'
    · exact (hd span rest rfl).elim
    rcases isNext_cases .lParen ts with ⟨span, rest, rfl⟩ | hp'
    · exact (hp span rest rfl).elim
    rcases isNext_cases .lBracket ts with ⟨span, rest, rfl⟩ | hb'
    · exact (hb span rest rfl).elim
    simp only [hd', hp', hb']
    rfl

theorem read_arguments (c : Expr) (ts : List Placed) :
    read stop (arguments c) ts = step (read stop) stop (arguments c) ts := by
  simp only [read, step]
  rw [parseArguments.eq_def]
  split
  · rfl
  · next t rest =>
    simp only
    split
    · rfl
    · refine map_bind_parsed fun arg rest₁ _ => ?_
      simp only
      split
      · exact map_bind_parsed fun closing _ _ => rfl
      · refine map_bind_parsed fun _ rest₂ _ => ?_
        cases parseArguments stop rest₂ <;> rfl

theorem read_atom (ts : List Placed) : read stop atom ts = step (read stop) stop atom ts := by
  simp only [read, step]
  rw [parseAtom.eq_def]
  split
  · rfl
  · next t rest =>
    simp only
    cases ofToken? t with
    | some r => cases r <;> rfl
    | none =>
      simp only
      split
      · exact map_bind_parsed fun e _ _ => map_bind_parsed fun closing _ _ => rfl
      · rfl

theorem read_eq_step (l : Level) (ts : List Placed) : read stop l ts = step (read stop) stop l ts := by
  cases l with
  | expression => exact read_expression stop ts
  | conditional => exact read_conditional stop ts
  | operands k => exact read_operands stop k ts
  | operators k left => exact read_operators stop k left ts
  | operand => exact read_operand stop ts
  | applied => exact read_applied stop ts
  | suffixes e => exact read_suffixes stop e ts
  | arguments c => exact read_arguments stop c ts
  | atom => exact read_atom stop ts

def least : Level → Nat
  | operators _ _ | suffixes _ => 0
  | _ => 1

theorem length_rest_le {l : Level} {ts rest : List Placed} {e : Expr} (h : read stop l ts = .ok (e, rest)) :
    rest.length + l.least ≤ ts.length := by
  cases l with
  | operators k left | suffixes e =>
    obtain ⟨p, -, hs⟩ := exists_of_map_ok h
    obtain ⟨-, rfl⟩ := Prod.mk.inj hs
    exact p.within
  | _ =>
    obtain ⟨p, -, hs⟩ := exists_of_map_ok h
    obtain ⟨-, rfl⟩ := Prod.mk.inj hs
    exact p.shorter

/-- Order of the levels that a step may reach without taking a token. -/
def rank : Level → Nat
  | arguments _ => 6
  | expression => 5
  | operands _ | operators _ _ => 4
  | operand => 3
  | conditional | applied => 2
  | suffixes _ | atom => 1

theorem rank_lt (l : Level) : l.rank < 8 := by cases l <;> simp [rank]

def weight (l : Level) (ts : List Placed) : Nat := 8 * ts.length + l.rank

theorem weight_of_length {l l' : Level} {ts ts' : List Placed} (h : ts'.length < ts.length) :
    weight l' ts' < weight l ts := by
  have := rank_lt l'
  unfold weight
  omega

theorem weight_of_rank {l l' : Level} (ts : List Placed) (h : l'.rank < l.rank) : weight l' ts < weight l ts :=
  Nat.add_lt_add_left h _

theorem induct {P : Level → List Placed → Prop}
    (h : ∀ l ts, (∀ l' ts', weight l' ts' < weight l ts → P l' ts') → P l ts) (l : Level) (ts : List Placed) :
    P l ts := by
  generalize hn : weight l ts = n
  induction n using Nat.strongRecOn generalizing l ts with
  | ind n ih => exact h l ts fun l' ts' hlt => ih _ (hn ▸ hlt) l' ts' rfl

end Level

end Expr

end Stencil
