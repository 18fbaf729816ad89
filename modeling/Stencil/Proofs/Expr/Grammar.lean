import Stencil.Proofs.Expr.Level
/-!
The grammar of expressions as a relation: which tokens a level takes before which others, and as what. The
readers decide it. What is taken depends on the tokens after it only by what they rule out, so the same
tokens are taken before any front of what follows them.
-/
set_option autoImplicit false

namespace Stencil.Expr

namespace Level

/-- A level takes the tokens of the second argument, which stand before those of the fourth. -/
inductive Takes : Level → List Placed → Expr → List Placed → Prop
  | plain {ts rest : List Placed} {e : Expr} (hi : Placed.isNext .ifWord ts = false)
      (h : Takes (operands 0) ts e rest) (hq : Placed.isNext .question rest = false) : Takes expression ts e rest
  | choice {c y n rest : List Placed} {test yes no : Expr} {mark colon : Span}
      (hi : Placed.isNext .ifWord c = false)
      (hc : Takes (operands 0) c test (⟨.fixed .question, mark⟩ :: (y ++ ⟨.fixed .colon, colon⟩ :: (n ++ rest))))
      (hy : Takes expression y yes (⟨.fixed .colon, colon⟩ :: (n ++ rest))) (hn : Takes expression n no rest) :
      Takes expression (c ++ ⟨.fixed .question, mark⟩ :: (y ++ ⟨.fixed .colon, colon⟩ :: n))
        (.choice test yes no (upTo test.span no.span)) rest
  | whole {ts rest : List Placed} {e : Expr} (h : Takes conditional ts e rest) : Takes expression ts e rest
  | guarded {c y rest : List Placed} {test yes : Expr} {word : Span} (hc : Takes (operands 0) c test (y ++ rest))
      (hy : Takes expression y yes rest) (he : Placed.isNext .elseWord rest = false) :
      Takes conditional (⟨.fixed .ifWord, word⟩ :: (c ++ y)) (.guarded test yes (upTo word yes.span)) rest
  | branches {c y n rest : List Placed} {test yes no : Expr} {word other : Span}
      (hc : Takes (operands 0) c test (y ++ ⟨.fixed .elseWord, other⟩ :: (n ++ rest)))
      (hy : Takes expression y yes (⟨.fixed .elseWord, other⟩ :: (n ++ rest))) (hn : Takes expression n no rest) :
      Takes conditional (⟨.fixed .ifWord, word⟩ :: (c ++ (y ++ ⟨.fixed .elseWord, other⟩ :: n)))
        (.choice test yes no (upTo word no.span)) rest
  | operands {k : Nat} {a b rest : List Placed} {left e : Expr} (ha : Takes operand a left (b ++ rest))
      (hb : Takes (operators k left) b e rest) : Takes (operands k) (a ++ b) e rest
  | ends {k : Nat} {left : Expr} {rest : List Placed} (h : operator? k rest = none) :
      Takes (operators k left) [] left rest
  | operator {k : Nat} {s : Symbol} {span : Span} {op : BinaryOp} {r b rest : List Placed} {left right e : Expr}
      (ho : binaryOp? s = some op) (hk : k ≤ op.strength)
      (hr : Takes (operands (rightStrength op)) r right (b ++ rest))
      (hb : Takes (operators k (.binary op left right (upTo left.span right.span))) b e rest) :
      Takes (operators k left) (⟨.fixed s, span⟩ :: (r ++ b)) e rest
  | unary {s : Symbol} {span : Span} {op : UnaryOp} {ts rest : List Placed} {e : Expr}
      (ho : unaryOp? s = some op) (h : Takes operand ts e rest) :
      Takes operand (⟨.fixed s, span⟩ :: ts) (.unary op e (upTo span e.span)) rest
  | branching {ts rest : List Placed} {e : Expr} (h : Takes conditional ts e rest) : Takes operand ts e rest
  | application {ts rest : List Placed} {e : Expr} (h : Takes applied ts e rest) : Takes operand ts e rest
  | applied {a b rest : List Placed} {e e' : Expr} (ha : Takes atom a e (b ++ rest))
      (hb : Takes (suffixes e) b e' rest) : Takes applied (a ++ b) e' rest
  | bare {e : Expr} {rest : List Placed} (hd : Placed.isNext .dot rest = false)
      (hp : Placed.isNext .lParen rest = false) (hb : Placed.isNext .lBracket rest = false) :
      Takes (suffixes e) [] e rest
  | member {e e' : Expr} {dot : Span} {t : Placed} {n : String} {ts rest : List Placed}
      (hn : memberName? t.token = some n)
      (h : Takes (suffixes (.member e n t.span (upTo e.span t.span))) ts e' rest) :
      Takes (suffixes e) (⟨.fixed .dot, dot⟩ :: t :: ts) e' rest
  | call {e e' e'' : Expr} {opening : Span} {a b rest : List Placed} (ha : Takes (arguments e) a e' (b ++ rest))
      (hb : Takes (suffixes e') b e'' rest) : Takes (suffixes e) (⟨.fixed .lParen, opening⟩ :: (a ++ b)) e'' rest
  | index {e i e' : Expr} {opening closing : Span} {a b rest : List Placed}
      (ha : Takes expression a i (⟨.fixed .rBracket, closing⟩ :: (b ++ rest)))
      (hb : Takes (suffixes (.index e i (upTo e.span closing))) b e' rest) :
      Takes (suffixes e) (⟨.fixed .lBracket, opening⟩ :: (a ++ ⟨.fixed .rBracket, closing⟩ :: b)) e' rest
  | noArguments {c : Expr} {closing : Span} {rest : List Placed} :
      Takes (arguments c) [⟨.fixed .rParen, closing⟩] (.call c [] (upTo c.span closing)) rest
  | lastArgument {c arg : Expr} {closing : Span} {a rest : List Placed} (hne : Placed.isNext .rParen a = false)
      (ha : Takes expression a arg (⟨.fixed .rParen, closing⟩ :: rest)) :
      Takes (arguments c) (a ++ [⟨.fixed .rParen, closing⟩]) (.call c [arg] (upTo c.span closing)) rest
  | moreArguments {c arg : Expr} {args : List Expr} {span comma : Span} {a b rest : List Placed}
      (hne : Placed.isNext .rParen a = false)
      (ha : Takes expression a arg (⟨.fixed .comma, comma⟩ :: (b ++ rest)))
      (hb : Takes (arguments c) b (.call c args span) rest) :
      Takes (arguments c) (a ++ ⟨.fixed .comma, comma⟩ :: b) (.call c (arg :: args) span) rest
  | token {t : Placed} {e : Expr} {rest : List Placed} (h : ofToken? t = some (.ok e)) : Takes atom [t] e rest
  | enclosed {e : Expr} {opening closing : Span} {a rest : List Placed}
      (h : Takes expression a e (⟨.fixed .rParen, closing⟩ :: rest)) :
      Takes atom (⟨.fixed .lParen, opening⟩ :: (a ++ [⟨.fixed .rParen, closing⟩]))
        (e.withSpan (upTo opening closing)) rest

/-! ### What the next tokens are -/

variable {k stop : Nat} {s : Symbol} {ts rest more : List Placed}

theorem isNext_cons (t : Placed) (ts : List Placed) : Placed.isNext s (t :: ts) = Placed.isNext s [t] := by
  obtain ⟨t, span⟩ := t
  cases t <;> rfl

theorem operator?_cons (t : Placed) (ts : List Placed) : operator? k (t :: ts) = operator? k [t] := by
  obtain ⟨t, span⟩ := t
  cases t <;> rfl

theorem isNext_append (hts : ts ≠ []) : Placed.isNext s (ts ++ more) = Placed.isNext s ts := by
  cases ts with
  | nil => exact absurd rfl hts
  | cons t ts => rw [List.cons_append, isNext_cons, ← isNext_cons t ts]

theorem isNext_front (hm : more <+: rest) (h : Placed.isNext s rest = false) : Placed.isNext s more = false := by
  obtain ⟨tail, rfl⟩ := hm
  cases more with
  | nil => rfl
  | cons t more => rwa [List.cons_append, isNext_cons, ← isNext_cons t more] at h

theorem operator?_front (hm : more <+: rest) (h : operator? k rest = none) : operator? k more = none := by
  obtain ⟨tail, rfl⟩ := hm
  cases more with
  | nil => rfl
  | cons t more => rwa [List.cons_append, operator?_cons, ← operator?_cons t more] at h

theorem exists_of_operator? {op : BinaryOp} (h : operator? k ts = some op) :
    ∃ s span rest, ts = ⟨.fixed s, span⟩ :: rest ∧ binaryOp? s = some op ∧ k ≤ op.strength := by
  unfold operator? at h
  split at h
  · next s span rest =>
    obtain ⟨ho, hk⟩ := Option.filter_eq_some_iff.1 h
    exact ⟨s, span, rest, rfl, ho, by simpa using hk⟩
  · cases h

theorem exists_of_sign? {op : UnaryOp} {span : Span} (h : sign? ts = some (op, span)) :
    ∃ s rest, ts = ⟨.fixed s, span⟩ :: rest ∧ unaryOp? s = some op := by
  unfold sign? at h
  split at h
  · next s span' rest =>
    obtain ⟨op', ho, hp⟩ := Option.map_eq_some_iff.1 h
    obtain ⟨rfl, rfl⟩ := Prod.mk.inj hp
    exact ⟨s, rest, rfl, ho⟩
  · cases h

theorem take_eq_ok_iff {span : Span} : take s stop ts = .ok (span, rest) ↔ ts = ⟨.fixed s, span⟩ :: rest := by
  constructor
  · intro h
    obtain ⟨p, hp, hs⟩ := exists_of_map_ok h
    obtain ⟨rfl, rfl⟩ := Prod.mk.inj hs
    unfold expect at hp
    split at hp
    · next t span rest =>
      split at hp
      · next ht => cases hp; rw [ht]
      · cases hp
    · cases hp
  · rintro rfl
    simp [take, expect_self, Except.map, Parsed.seen]

variable {e : Expr} {mid : List Placed} {l : Level}

theorem Takes.front (h : Takes l mid e rest) : ∀ {more : List Placed}, more <+: rest → Takes l mid e more := by
  have cons (t : Placed) {a b : List Placed} (hab : a <+: b) : t :: a <+: t :: b := by simpa using hab
  have append (c : List Placed) {a b : List Placed} (hab : a <+: b) : c ++ a <+: c ++ b := by simpa using hab
  induction h with
  | plain hi h hq ih => exact fun hm => .plain hi (ih hm) (isNext_front hm hq)
  | choice hi hc hy hn ihc ihy ihn =>
    exact fun hm => .choice hi (ihc (cons _ (append _ (cons _ (append _ hm))))) (ihy (cons _ (append _ hm))) (ihn hm)
  | whole h ih => exact fun hm => .whole (ih hm)
  | guarded hc hy he ihc ihy => exact fun hm => .guarded (ihc (append _ hm)) (ihy hm) (isNext_front hm he)
  | branches hc hy hn ihc ihy ihn =>
    exact fun hm => .branches (ihc (append _ (cons _ (append _ hm)))) (ihy (cons _ (append _ hm))) (ihn hm)
  | operands ha hb iha ihb => exact fun hm => .operands (iha (append _ hm)) (ihb hm)
  | ends h => exact fun hm => .ends (operator?_front hm h)
  | operator ho hk hr hb ihr ihb => exact fun hm => .operator ho hk (ihr (append _ hm)) (ihb hm)
  | unary ho h ih => exact fun hm => .unary ho (ih hm)
  | branching h ih => exact fun hm => .branching (ih hm)
  | application h ih => exact fun hm => .application (ih hm)
  | applied ha hb iha ihb => exact fun hm => .applied (iha (append _ hm)) (ihb hm)
  | bare hd hp hb => exact fun hm => .bare (isNext_front hm hd) (isNext_front hm hp) (isNext_front hm hb)
  | member hn h ih => exact fun hm => .member hn (ih hm)
  | call ha hb iha ihb => exact fun hm => .call (iha (append _ hm)) (ihb hm)
  | index ha hb iha ihb => exact fun hm => .index (iha (cons _ (append _ hm))) (ihb hm)
  | noArguments => exact fun _ => .noArguments
  | lastArgument hne ha iha => exact fun hm => .lastArgument hne (iha (cons _ hm))
  | moreArguments hne ha hb iha ihb => exact fun hm => .moreArguments hne (iha (cons _ (append _ hm))) (ihb hm)
  | token h => exact fun _ => .token h
  | enclosed h ih => exact fun hm => .enclosed (ih (cons _ hm))

/-! ### The readers decide the grammar -/

theorem call_of_arguments {c : Expr} (h : read stop (arguments c) ts = .ok (e, rest)) :
    ∃ args span, e = .call c args span := by
  obtain ⟨p, -, hp⟩ := exists_of_map_ok h
  exact ⟨_, _, (Prod.mk.inj hp).1.symm⟩

theorem starts_of_ofToken? {t : Placed} {x : Except SyntaxError Expr} (h : ofToken? t = some x) :
    sign? (t :: more) = none ∧ Placed.isNext .ifWord (t :: more) = false := by
  obtain ⟨t, span⟩ := t
  cases t with
  | fixed s => cases s <;> simp_all [ofToken?, sign?, unaryOp?, Placed.isNext]
  | _ => exact ⟨rfl, rfl⟩

theorem Takes.atom_starts (h : Takes atom mid e rest) :
    sign? (mid ++ more) = none ∧ Placed.isNext .ifWord (mid ++ more) = false := by
  cases h with
  | token h => exact starts_of_ofToken? h
  | enclosed h => exact ⟨rfl, rfl⟩

theorem Takes.applied_starts (h : Takes .applied mid e rest) :
    sign? (mid ++ more) = none ∧ Placed.isNext .ifWord (mid ++ more) = false := by
  cases h with
  | applied ha hb => rw [List.append_assoc]; exact ha.atom_starts

theorem Takes.conditional_starts (h : Takes conditional mid e rest) :
    sign? (mid ++ more) = none ∧ Placed.isNext .ifWord (mid ++ more) = true := by
  cases h with
  | guarded | branches => exact ⟨rfl, rfl⟩

theorem take_self (s : Symbol) (stop : Nat) (span : Span) (rest : List Placed) :
    take s stop (⟨.fixed s, span⟩ :: rest) = .ok (span, rest) := take_eq_ok_iff.2 rfl

theorem ne_nil_of_read (hl : l.least = 1) (h : read stop l (mid ++ rest) = .ok (e, rest)) : mid ≠ [] := by
  rintro rfl
  have hlen := length_rest_le stop h
  rw [hl, List.nil_append] at hlen
  omega

theorem Takes.read (stop : Nat) (h : Takes l mid e rest) : Level.read stop l (mid ++ rest) = .ok (e, rest) := by
  -- On the derivation: one step of a level asks only for the readings that the premises give.
  induction h with
  | plain hi h hq ih =>
    rw [read_eq_step, step, isNext_append (ne_nil_of_read rfl ih), hi]
    simp only [ih, bind, Except.bind, hq]
    rfl
  | choice hi hc hy hn ihc ihy ihn =>
    simp only [List.append_assoc, List.cons_append]
    rw [read_eq_step, step, isNext_append (ne_nil_of_read rfl ihc), hi]
    simp only [ihc, bind, Except.bind, isNext_fixed, if_true, List.tail_cons, ihy, take_self, ihn]
    rfl
  | whole h ih => rw [read_eq_step, step, h.conditional_starts.2, if_pos rfl, ih]
  | @guarded c y rest test yes word hc hy he ihc ihy =>
    have hne : (y ++ rest).isEmpty = false := by simp [ne_nil_of_read rfl ihy]
    simp only [List.cons_append, List.append_assoc]
    rw [read_eq_step, step]
    simp only [take_self, bind, Except.bind, ihc, hne, ihy, he]
    rfl
  | @branches c y n rest test yes no word other hc hy hn ihc ihy ihn =>
    simp only [List.cons_append, List.append_assoc]
    have hne : (y ++ ⟨.fixed .elseWord, other⟩ :: (n ++ rest)).isEmpty = false := by simp
    rw [read_eq_step, step]
    simp only [take_self, bind, Except.bind, ihc, hne, ihy, isNext_fixed, if_true, List.tail_cons, ihn]
    rfl
  | operands ha hb iha ihb =>
    rw [List.append_assoc, read_eq_step, step]
    simp only [iha, bind, Except.bind, ihb]
  | ends h =>
    rw [List.nil_append, read_eq_step, step, h]
    rfl
  | @operator k s span op r b rest left right e ho hk hr hb ihr ihb =>
    have hop : operator? k (⟨.fixed s, span⟩ :: (r ++ (b ++ rest))) = some op := by
      simp [operator?, ho, hk]
    simp only [List.cons_append, List.append_assoc]
    rw [read_eq_step, step, hop]
    simp only [List.tail_cons, ihr, bind, Except.bind, ihb]
  | @unary s span op ts rest e ho h ih =>
    have hop : sign? (⟨.fixed s, span⟩ :: (ts ++ rest)) = some (op, span) := by simp [sign?, ho]
    rw [List.cons_append, read_eq_step, step, hop]
    simp only [List.tail_cons, ih, bind, Except.bind]
    rfl
  | branching h ih => rw [read_eq_step, step, h.conditional_starts.1, h.conditional_starts.2]; exact ih
  | application h ih => rw [read_eq_step, step, h.applied_starts.1, h.applied_starts.2]; exact ih
  | applied ha hb iha ihb =>
    rw [List.append_assoc, read_eq_step, step]
    simp only [iha, bind, Except.bind, ihb]
  | bare hd hp hb =>
    rw [List.nil_append, read_eq_step, step, hd, hp, hb]
    rfl
  | member hn h ih =>
    rw [List.cons_append, List.cons_append, read_eq_step, step, isNext_fixed]
    simp only [if_true, List.tail_cons, hn, ih]
  | @call e e₁ e₂ opening a b rest ha hb iha ihb =>
    have hd : Placed.isNext .dot (⟨.fixed .lParen, opening⟩ :: (a ++ (b ++ rest))) = false := by rfl
    rw [List.cons_append, List.append_assoc, read_eq_step, step, hd, isNext_fixed]
    simp only [Bool.false_eq_true, if_false, if_true, List.tail_cons, iha, bind, Except.bind, ihb]
  | @index e i e' opening closing a b rest ha hb iha ihb =>
    simp only [List.cons_append, List.append_assoc]
    have hd : Placed.isNext .dot (⟨.fixed .lBracket, opening⟩ :: (a ++ ⟨.fixed .rBracket, closing⟩ :: (b ++ rest))) =
      false := by rfl
    have hp : Placed.isNext .lParen
      (⟨.fixed .lBracket, opening⟩ :: (a ++ ⟨.fixed .rBracket, closing⟩ :: (b ++ rest))) = false := by rfl
    rw [read_eq_step, step, hd, hp, isNext_fixed]
    simp only [Bool.false_eq_true, if_false, if_true, List.tail_cons, iha, bind, Except.bind, take_self, ihb]
  | noArguments =>
    rw [List.singleton_append, read_eq_step, step, isNext_fixed]
    rfl
  | @lastArgument c arg closing a rest hne ha iha =>
    rw [List.append_assoc, List.singleton_append]
    obtain ⟨t, a, rfl⟩ := List.exists_cons_of_ne_nil (ne_nil_of_read rfl iha)
    rw [List.cons_append] at iha ⊢
    rw [isNext_cons, ← isNext_cons t (a ++ ⟨.fixed .rParen, closing⟩ :: rest)] at hne
    rw [read_eq_step, step, hne]
    simp only [Bool.false_eq_true, if_false, iha, bind, Except.bind, isNext_fixed, if_true, take_self]
    rfl
  | @moreArguments c arg args span comma a b rest hne ha hb iha ihb =>
    rw [List.append_assoc, List.cons_append]
    obtain ⟨t, a, rfl⟩ := List.exists_cons_of_ne_nil (ne_nil_of_read rfl iha)
    rw [List.cons_append] at iha ⊢
    rw [isNext_cons, ← isNext_cons t (a ++ ⟨.fixed .comma, comma⟩ :: (b ++ rest))] at hne
    have hc : Placed.isNext .rParen (⟨.fixed .comma, comma⟩ :: (b ++ rest)) = false := by rfl
    rw [read_eq_step, step, hne]
    simp only [Bool.false_eq_true, if_false, iha, bind, Except.bind, hc, take_self, ihb, withArgument]
    rfl
  | token h =>
    rw [List.singleton_append, read_eq_step, step, h]
    rfl
  | enclosed h ih =>
    simp only [List.cons_append, List.append_assoc, List.nil_append]
    rw [read_eq_step, step, isNext_fixed]
    simp only [ofToken?, if_true, ih, bind, Except.bind, take_self]
    rfl

end Level

end Stencil.Expr
