import Stencil.Proofs.Expr.Grammar
import Stencil.Proofs.Expr.Printer
/-!
The grammar follows the table of levels: what is printed with no more parentheses than the table asks for is
taken for what was printed. Each level is given what its place asks for, followed by tokens that do not go on with it.
-/
set_option autoImplicit false

namespace Stencil

theorem BinaryOp.level_eq_strength (op : BinaryOp) : op.level = op.strength := by cases op <;> rfl

theorem BinaryOp.rightStrength_eq (op : BinaryOp) : Expr.Level.rightStrength op = op.rightLevel := by
  cases op <;> rfl

theorem BinaryOp.ten_le_level (op : BinaryOp) : 10 ≤ op.level := by cases op <;> decide

theorem BinaryOp.level_le_hundred (op : BinaryOp) : op.level ≤ 100 := by cases op <;> decide

theorem BinaryOp.level_le_rightLevel (op : BinaryOp) : op.level ≤ op.rightLevel := by
  unfold rightLevel
  split <;> omega

theorem BinaryOp.ten_lt_leftLevel (op : BinaryOp) : 10 < op.leftLevel := by cases op <;> decide

theorem BinaryOp.level_le_leftLevel (op : BinaryOp) : op.level ≤ op.leftLevel := by
  unfold leftLevel
  split <;> omega

/-- An operator that may stand bare on the left of another holds on to its right operand. -/
theorem BinaryOp.level_lt_rightLevel {op op' : BinaryOp} (h : op.leftLevel ≤ op'.level) :
    op.level < op'.rightLevel := by
  have h₁ := op.ten_lt_leftLevel
  have h₂ := op.level_le_leftLevel
  have hne : op' ≠ coalesce := by
    rintro rfl
    simp only [level] at h; omega
  simp only [rightLevel, if_neg hne]; omega

namespace Expr

open Level (Takes operator?)

/-- Where operators of a given strength end: no operator that is strong enough, and nothing that would be
applied to the operand before it, comes next. -/
structure Ends (k : Nat) (rest : List Placed) : Prop where
  dot : Placed.isNext .dot rest = false
  call : Placed.isNext .lParen rest = false
  index : Placed.isNext .lBracket rest = false
  operator : operator? k rest = none

namespace Ends

variable {k m : Nat} {rest : List Placed}

theorem mono (h : Ends k rest) (hk : k ≤ m) : Ends m rest := by
  refine ⟨h.dot, h.call, h.index, Option.eq_none_iff_forall_ne_some.2 fun op hop => ?_⟩
  obtain ⟨s, span, rest, rfl, ho, hm⟩ := Level.exists_of_operator? hop
  have hnone : op.strength < k := by simpa [operator?, ho] using h.operator
  omega

theorem suffixes (h : Ends k rest) (e : Expr) : Takes (.suffixes e) [] e rest := .bare h.dot h.call h.index

theorem operators (h : Ends k rest) (e : Expr) : Takes (.operators k e) [] e rest := .ends h.operator

theorem of_operator {s : Symbol} {op : BinaryOp} (ho : binaryOp? s = some op) (hk : op.strength < k) (span : Span) :
    Ends k (⟨.fixed s, span⟩ :: rest) := by
  have hno : ∀ s', binaryOp? s' = none → Placed.isNext s' (⟨.fixed s, span⟩ :: rest) = false := by
    intro s' hs'
    refine beq_eq_false_iff_ne.2 ?_
    rintro rfl
    rw [ho] at hs'; cases hs'
  exact ⟨hno .dot rfl, hno .lParen rfl, hno .lBracket rfl, by simp [operator?, ho, hk]⟩

end Ends

def Closes : List Placed → Prop
  | [] => True
  | ⟨.fixed s, _⟩ :: _ => s = .comma ∨ s = .rParen ∨ s = .rBracket ∨ s = .colon
  | _ => False

theorem Closes.ends {rest : List Placed} (h : Closes rest) (k : Nat) : Ends k rest := by
  match rest with
  | [] => exact ⟨rfl, rfl, rfl, rfl⟩
  | ⟨.fixed s, _⟩ :: _ => rcases h with rfl | rfl | rfl | rfl <;> exact ⟨rfl, rfl, rfl, rfl⟩

theorem Closes.not_question {rest : List Placed} (h : Closes rest) : Placed.isNext .question rest = false := by
  match rest with
  | [] => rfl
  | ⟨.fixed s, _⟩ :: _ =>
    rcases h with rfl | rfl | rfl | rfl <;> rfl

def Opens (p : List Token) : Prop := ∃ t more, p = t :: more ∧ t ≠ .fixed .ifWord ∧ t ≠ .fixed .rParen

variable {p : List Token} {e : Expr}

theorem Opens.append (h : Opens p) (q : List Token) : Opens (p ++ q) := by
  obtain ⟨t, more, rfl, ht⟩ := h
  exact ⟨t, more ++ q, rfl, ht⟩

theorem Opens.isNext {as : List Placed} (h : Opens p) (has : as.map Placed.token = p) :
    Placed.isNext .ifWord as = false ∧ Placed.isNext .rParen as = false := by
  obtain ⟨t, more, rfl, hi, hr⟩ := h
  obtain ⟨⟨t, span⟩, as, rfl, rfl, -⟩ := List.map_eq_cons_iff.1 has
  cases t with
  | fixed s => simpa [Placed.isNext] using And.intro hi hr
  | _ => exact ⟨rfl, rfl⟩

/-- Tokens that are taken for an expression to which members, arguments and positions can be applied. -/
structure ReadsApplied (p : List Token) (e : Expr) : Prop where
  opens : Opens p
  takes : ∀ as b rest : List Placed, as.map Placed.token = p →
    ∃ e', e'.plain = e.plain ∧ ∀ f, Takes (.suffixes e') b f rest → Takes .applied (as ++ b) f rest

structure ReadsOperand (p : List Token) (e : Expr) : Prop where
  opens : Opens p
  takes : ∀ (k : Nat) (as rest : List Placed), as.map Placed.token = p → Ends k rest →
    ∃ e', e'.plain = e.plain ∧ Takes .operand as e' rest

/-- Tokens that are taken for operands joined by operators of at least strength `k`, before an operator weaker
than `inner`. -/
structure ReadsBinary (inner k : Nat) (p : List Token) (e : Expr) : Prop where
  opens : Opens p
  takes : ∀ as b rest : List Placed, as.map Placed.token = p → Ends inner (b ++ rest) →
    ∃ e', e'.plain = e.plain ∧ ∀ f, Takes (.operators k e') b f rest → Takes (.operands k) (as ++ b) f rest

structure ReadsFull (p : List Token) (e : Expr) : Prop where
  opens : Opens p
  takes : ∀ as rest : List Placed, as.map Placed.token = p → Closes rest →
    ∃ e', e'.plain = e.plain ∧ Takes .expression as e' rest

theorem ReadsApplied.operand (h : ReadsApplied p e) : ReadsOperand p e := by
  refine ⟨h.opens, ?_⟩
  intro k as rest has hends
  obtain ⟨e', he, ht⟩ := h.takes as [] rest has
  rw [List.append_nil] at ht
  exact ⟨e', he, .application (ht e' (hends.suffixes e'))⟩

theorem ReadsOperand.binary (h : ReadsOperand p e) (inner k : Nat) : ReadsBinary inner k p e := by
  refine ⟨h.opens, ?_⟩
  intro as b rest has hends
  obtain ⟨e', he, ht⟩ := h.takes inner as (b ++ rest) has hends
  exact ⟨e', he, fun _ hf => .operands ht hf⟩

theorem ReadsBinary.alone {inner k : Nat} (h : ReadsBinary inner k p e) {as rest : List Placed}
    (has : as.map Placed.token = p) (hi : Ends inner rest) (hk : Ends k rest) :
    ∃ e', e'.plain = e.plain ∧ Takes (.operands k) as e' rest := by
  obtain ⟨e', he, ht⟩ := h.takes as [] rest has hi
  rw [List.append_nil] at ht
  exact ⟨e', he, ht e' (hk.operators e')⟩

theorem ReadsBinary.full {inner : Nat} (h : ReadsBinary inner 0 p e) : ReadsFull p e := by
  refine ⟨h.opens, ?_⟩
  intro as rest has hc
  obtain ⟨e', he, ht⟩ := h.alone has (hc.ends inner) (hc.ends 0)
  exact ⟨e', he, .plain (h.opens.isNext has).1 ht hc.not_question⟩

theorem ReadsFull.enclosed (h : ReadsFull p e) :
    ReadsApplied ([.fixed .lParen] ++ p ++ [.fixed .rParen]) e := by
  refine ⟨⟨.fixed .lParen, _, rfl, nofun, nofun⟩, ?_⟩
  intro as b rest has
  obtain ⟨bs, cs, rfl, hbs, hcs⟩ := List.map_eq_append_iff.1 has
  obtain ⟨ls, ms, rfl, hls, hms⟩ := List.map_eq_append_iff.1 hbs
  obtain ⟨⟨_, s⟩, rfl, rfl⟩ := List.map_eq_singleton_iff.1 hls
  obtain ⟨⟨_, s'⟩, rfl, rfl⟩ := List.map_eq_singleton_iff.1 hcs
  obtain ⟨e', he, ht⟩ := h.takes ms (⟨.fixed .rParen, s'⟩ :: (b ++ rest)) hms (.inr (.inl rfl))
  exact ⟨e'.withSpan (upTo s s'), by rw [plain_withSpan, he], fun _ hf => .applied (.enclosed ht) hf⟩

/-- The printed expression is read at every place its level allows. -/
structure ReadBack (sp : Spelling) (e : Expr) : Prop where
  full : ReadsFull (e.print sp) e
  binary : 10 ≤ e.level → ∀ inner k, k ≤ e.level →
    (∀ op : BinaryOp, e.level = op.level → inner ≤ op.rightLevel) → ReadsBinary inner k (e.print sp) e
  operand : 110 ≤ e.level → ReadsOperand (e.print sp) e
  applied : 120 ≤ e.level → ReadsApplied (e.print sp) e

variable {sp : Spelling}

theorem ReadBack.of_applied (h : ReadsApplied (e.print sp) e) : ReadBack sp e :=
  ⟨(h.operand.binary 0 0).full, fun _ inner k _ _ => h.operand.binary inner k, fun _ => h.operand, fun _ => h⟩

theorem ReadBack.applied_at (h : ReadBack sp e) : ReadsApplied (enclosed 120 e.level (e.print sp)) e := by
  unfold Expr.enclosed
  split
  · exact h.full.enclosed
  · next hl => exact h.applied (by omega)

theorem ReadBack.operand_at (h : ReadBack sp e) : ReadsOperand (enclosed 110 e.level (e.print sp)) e := by
  unfold Expr.enclosed
  split
  · exact h.full.enclosed.operand
  · next hl => exact h.operand (by omega)

theorem ReadBack.binary_at (h : ReadBack sp e) {inner k required : Nat} (hr : 10 ≤ required)
    (hk : k ≤ required) (hi : ∀ op : BinaryOp, required ≤ op.level → inner ≤ op.rightLevel) :
    ReadsBinary inner k (enclosed required e.level (e.print sp)) e := by
  unfold Expr.enclosed
  split
  · exact h.full.enclosed.operand.binary inner k
  · next hl => exact h.binary (by omega) inner k (by omega) fun op ho => hi op (by omega)

theorem ReadsApplied.of_token {t : Token}
    (h : ∀ span, ∃ e', e'.plain = e.plain ∧ ofToken? ⟨t, span⟩ = some (.ok e')) : ReadsApplied [t] e := by
  refine ⟨⟨t, [], rfl, ?_, ?_⟩, ?_⟩
  · rintro rfl
    obtain ⟨_, -, ht⟩ := h default
    cases ht
  · rintro rfl
    obtain ⟨_, -, ht⟩ := h default
    cases ht
  · intro as b rest has
    obtain ⟨⟨_, span⟩, rfl, rfl⟩ := List.map_eq_singleton_iff.1 has
    obtain ⟨e', he, ht⟩ := h span
    exact ⟨e', he, fun _ hf => .applied (.token ht) hf⟩

theorem ReadBack.literal {l : Literal} {s : Span} (h : (sp.literal l).Denotes l) :
    ReadBack sp (.literal l s) := by
  refine .of_applied ?_
  rw [print]
  exact .of_token fun span => ⟨.literal l span, by simp only [plain], h span⟩

theorem ReadBack.name {n : String} {s : Span} : ReadBack sp (.name n s) := by
  refine .of_applied ?_
  rw [print]
  exact .of_token fun span => ⟨.name n span, by simp only [plain], rfl⟩

theorem ReadBack.context {n : Nat} {s : Span} : ReadBack sp (.context n s) := by
  refine .of_applied ?_
  rw [print]
  exact .of_token fun span => ⟨.context n span, by simp only [plain], rfl⟩

theorem ReadsApplied.suffix {q : List Token} {f : Expr} (h : ReadsApplied p e)
    (hq : ∀ (as b rest : List Placed) (e' : Expr), as.map Placed.token = q → e'.plain = e.plain →
      ∃ f', f'.plain = f.plain ∧ ∀ g, Takes (.suffixes f') b g rest → Takes (.suffixes e') (as ++ b) g rest) :
    ReadsApplied (p ++ q) f := by
  refine ⟨h.opens.append q, ?_⟩
  intro as b rest has
  obtain ⟨bs, cs, rfl, hbs, hcs⟩ := List.map_eq_append_iff.1 has
  obtain ⟨e', he, ht⟩ := h.takes bs (cs ++ b) rest hbs
  obtain ⟨f', hf, hs⟩ := hq cs b rest e' hcs he
  refine ⟨f', hf, fun g hg => ?_⟩
  rw [List.append_assoc]
  exact ht g (hs g hg)

theorem ReadBack.member {t : Expr} {n : String} {s s' : Span} (h : ReadBack sp t) :
    ReadBack sp (.member t n s s') := by
  refine .of_applied ?_
  rw [print]
  refine h.applied_at.suffix ?_
  intro as b rest e' has he
  obtain ⟨⟨_, s₁⟩, ds, rfl, rfl, hds⟩ := List.map_eq_cons_iff.1 has
  obtain ⟨⟨_, s₂⟩, rfl, rfl⟩ := List.map_eq_singleton_iff.1 hds
  exact ⟨.member e' n s₂ (upTo e'.span s₂), by simp only [plain, he], fun _ hg => .member rfl hg⟩

theorem ReadBack.index {t i : Expr} {s : Span} (h : ReadBack sp t) (hi : ReadBack sp i) :
    ReadBack sp (.index t i s) := by
  refine .of_applied ?_
  rw [print, List.append_assoc, List.append_assoc, List.singleton_append]
  refine h.applied_at.suffix ?_
  intro as b rest e' has he
  obtain ⟨⟨_, s₁⟩, ds, rfl, rfl, hds⟩ := List.map_eq_cons_iff.1 has
  obtain ⟨is, bs, rfl, his, hbs⟩ := List.map_eq_append_iff.1 hds
  obtain ⟨⟨_, s₂⟩, rfl, rfl⟩ := List.map_eq_singleton_iff.1 hbs
  obtain ⟨i', hi', ht⟩ := hi.full.takes is (⟨.fixed .rBracket, s₂⟩ :: (b ++ rest)) his (.inr (.inr (.inl rfl)))
  refine ⟨.index e' i' (upTo e'.span s₂), by simp only [plain, he, hi'], fun g hg => ?_⟩
  rw [List.cons_append, List.append_assoc]
  exact .index ht hg

theorem takes_printArgs {es : List Expr} (h : ∀ e ∈ es, ReadBack sp e) (c : Expr) (span : Span)
    {as : List Placed} (rest : List Placed) (has : as.map Placed.token = printArgs sp es) :
    ∃ es', plainAll es' = plainAll es ∧
      Takes (.arguments c) (as ++ [⟨.fixed .rParen, span⟩]) (.call c es' (upTo c.span span)) rest := by
  induction es generalizing as with
  | nil =>
    rw [printArgs, List.map_eq_nil_iff] at has
    subst has
    exact ⟨[], rfl, .noArguments⟩
  | cons e es ih =>
    have he := (h e (by simp)).full
    cases es with
    | nil =>
      rw [printArgs] at has
      obtain ⟨e', he', ht⟩ := he.takes as (⟨.fixed .rParen, span⟩ :: rest) has (.inr (.inl rfl))
      exact ⟨[e'], by simp only [plainAll, he'], .lastArgument (he.opens.isNext has).2 ht⟩
    | cons f fs =>
      rw [printArgs, List.append_assoc, List.singleton_append] at has
      obtain ⟨bs, ds, rfl, hbs, hds⟩ := List.map_eq_append_iff.1 has
      obtain ⟨⟨_, s₁⟩, cs, rfl, rfl, hcs⟩ := List.map_eq_cons_iff.1 hds
      obtain ⟨es', hes, hm⟩ := ih (fun e he => h e (by simp [he])) hcs
      obtain ⟨e', he', ht⟩ := he.takes bs
        (⟨.fixed .comma, s₁⟩ :: ((cs ++ [⟨.fixed .rParen, span⟩]) ++ rest)) hbs (.inl rfl)
      refine ⟨e' :: es', by rw [plainAll, plainAll, he', hes], ?_⟩
      rw [List.append_assoc]
      exact .moreArguments (he.opens.isNext hbs).2 ht hm

theorem ReadBack.call {c : Expr} {args : List Expr} {s : Span} (h : ReadBack sp c)
    (ha : ∀ e ∈ args, ReadBack sp e) : ReadBack sp (.call c args s) := by
  refine .of_applied ?_
  rw [print, List.append_assoc, List.append_assoc, List.singleton_append]
  refine h.applied_at.suffix ?_
  intro as b rest e' has he
  obtain ⟨⟨_, s₁⟩, ds, rfl, rfl, hds⟩ := List.map_eq_cons_iff.1 has
  obtain ⟨bs, cs, rfl, hbs, hcs⟩ := List.map_eq_append_iff.1 hds
  obtain ⟨⟨_, s₂⟩, rfl, rfl⟩ := List.map_eq_singleton_iff.1 hcs
  obtain ⟨args', hargs, ht⟩ := takes_printArgs ha e' s₂ (b ++ rest) hbs
  exact ⟨.call e' args' (upTo e'.span s₂), by simp only [plain, he, hargs], fun _ hg => .call ht hg⟩

theorem ReadBack.unary {op : UnaryOp} {s : Span} (h : ReadBack sp e) : ReadBack sp (.unary op e s) := by
  have hu := sp.unary_reads op
  have hop : ReadsOperand (print sp (.unary op e s)) (.unary op e s) := by
    rw [print]
    refine ⟨⟨_, _, rfl, ?_, ?_⟩, ?_⟩
    · intro hs; rw [Token.fixed.inj hs] at hu; cases hu
    · intro hs; rw [Token.fixed.inj hs] at hu; cases hu
    · intro k as rest has hends
      obtain ⟨⟨_, s₁⟩, bs, rfl, rfl, hbs⟩ := List.map_eq_cons_iff.1 has
      obtain ⟨e', he, ht⟩ := h.operand_at.takes k bs rest hbs hends
      exact ⟨.unary op e' (upTo s₁ e'.span), by simp only [plain, he], .unary hu ht⟩
  exact ⟨(hop.binary 0 0).full, fun _ inner k _ _ => hop.binary inner k, fun _ => hop,
    fun hl => absurd hl (by simp [level])⟩

theorem ReadBack.operator {op : BinaryOp} {l r : Expr} {s : Span} (hl : ReadBack sp l)
    (hr : ReadBack sp r) : ReadBack sp (.binary op l r s) := by
  have hten := op.ten_le_level
  have hhundred := op.level_le_hundred
  have hstrength := op.level_eq_strength
  have hright := op.level_le_rightLevel
  have hb : ∀ inner k, k ≤ op.level → inner ≤ op.rightLevel →
      ReadsBinary inner k (print sp (.binary op l r s)) (.binary op l r s) := by
    intro inner k hk hinner
    have hleft : ReadsBinary (op.level + 1) k _ l :=
      hl.binary_at (Nat.le_of_lt op.ten_lt_leftLevel) (Nat.le_trans hk op.level_le_leftLevel)
        fun op' => BinaryOp.level_lt_rightLevel
    have hrest : ReadsBinary op.rightLevel op.rightLevel _ r :=
      hr.binary_at (Nat.le_trans hten hright) Nat.le.refl fun op' ho => Nat.le_trans ho op'.level_le_rightLevel
    rw [print, List.append_assoc, List.singleton_append]
    refine ⟨hleft.opens.append _, ?_⟩
    intro as b rest has hends
    obtain ⟨bs, ds, rfl, hbs, hds⟩ := List.map_eq_append_iff.1 has
    obtain ⟨⟨_, s₁⟩, cs, rfl, rfl, hcs⟩ := List.map_eq_cons_iff.1 hds
    -- the operator is too weak for the left operand to go on with it
    have hop : Ends (op.level + 1) (⟨.fixed (sp.binary op), s₁⟩ :: (cs ++ b) ++ rest) :=
      .of_operator (sp.binary_reads op) (by omega) s₁
    obtain ⟨l', hl', hleft⟩ := hleft.takes bs (⟨.fixed (sp.binary op), s₁⟩ :: (cs ++ b)) rest hbs hop
    have hends' := hends.mono hinner
    obtain ⟨r', hr', hrest⟩ := hrest.alone hcs hends' hends'
    rw [← op.rightStrength_eq] at hrest
    refine ⟨.binary op l' r' (upTo l'.span r'.span), by simp only [plain, hl', hr'], fun f hf => ?_⟩
    rw [List.append_assoc, List.cons_append]
    exact hleft f (.operator (sp.binary_reads op) (by omega) hrest hf)
  exact ⟨(hb 0 0 (Nat.zero_le _) (Nat.zero_le _)).full,
    fun _ inner k hk hi => hb inner k hk (hi op rfl),
    fun h => absurd h (by simp only [level]; omega), fun h => absurd h (by simp only [level]; omega)⟩

theorem ReadBack.choice {c t f : Expr} {s : Span} (hc : ReadBack sp c) (ht : ReadBack sp t)
    (hf : ReadBack sp f) : ReadBack sp (.choice c t f s) := by
  have htest : ReadsBinary 10 0 _ c :=
    hc.binary_at Nat.le.refl (Nat.zero_le _) fun op _ => Nat.le_trans op.ten_le_level op.level_le_rightLevel
  have hfull : ReadsFull (print sp (.choice c t f s)) (.choice c t f s) := by
    rw [print]
    simp only [List.append_assoc, List.singleton_append]
    refine ⟨htest.opens.append _, ?_⟩
    intro as rest has hcloses
    obtain ⟨bs, ds, rfl, hbs, hds⟩ := List.map_eq_append_iff.1 has
    obtain ⟨⟨_, s₁⟩, es, rfl, rfl, hes⟩ := List.map_eq_cons_iff.1 hds
    obtain ⟨ts, gs, rfl, hts, hgs⟩ := List.map_eq_append_iff.1 hes
    obtain ⟨⟨_, s₂⟩, fs, rfl, rfl, hfs⟩ := List.map_eq_cons_iff.1 hgs
    have hq (k : Nat) : Ends k (⟨.fixed .question, s₁⟩ :: (ts ++ ⟨.fixed .colon, s₂⟩ :: (fs ++ rest))) :=
      ⟨rfl, rfl, rfl, rfl⟩
    obtain ⟨c', hc', hc⟩ := htest.alone hbs (hq 10) (hq 0)
    obtain ⟨t', ht', ht⟩ := ht.full.takes ts (⟨.fixed .colon, s₂⟩ :: (fs ++ rest)) hts (.inr (.inr (.inr rfl)))
    obtain ⟨f', hf', hf⟩ := hf.full.takes fs rest hfs hcloses
    exact ⟨.choice c' t' f' (upTo c'.span f'.span), by simp only [plain, hc', ht', hf'],
      .choice (htest.opens.isNext hbs).1 hc ht hf⟩
  exact ⟨hfull, fun h => absurd h (by simp [level]), fun h => absurd h (by simp [level]),
    fun h => absurd h (by simp [level])⟩

mutual

theorem readBack (sp : Spelling) : (e : Expr) → e.Printable → ReadBack sp e
  | .literal l _, h => by rw [Printable] at h; exact .literal (sp.literal_reads l h)
  | .name _ _, _ => .name
  | .context _ _, _ => .context
  | .member t _ _ _, h => by rw [Printable] at h; exact (readBack sp t h).member
  | .index t i _, h => by rw [Printable] at h; exact (readBack sp t h.1).index (readBack sp i h.2)
  | .call c args _, h => by rw [Printable] at h; exact (readBack sp c h.1).call (readBackAll sp args h.2)
  | .unary _ e _, h => by rw [Printable] at h; exact (readBack sp e h).unary
  | .binary _ l r _, h => by rw [Printable] at h; exact (readBack sp l h.1).operator (readBack sp r h.2)
  | .choice c t f _, h => by
    rw [Printable] at h
    exact (readBack sp c h.1).choice (readBack sp t h.2.1) (readBack sp f h.2.2)
  | .guarded _ _ _, h => by rw [Printable] at h; exact h.elim

theorem readBackAll (sp : Spelling) : (es : List Expr) → AllPrintable es → ∀ e ∈ es, ReadBack sp e
  | [], _ => by simp
  | e :: es, h => by
    rw [AllPrintable] at h
    intro f hf
    cases hf with
    | head => exact readBack sp e h.1
    | tail _ hf => exact readBackAll sp es h.2 f hf

end

/-- What is printed is read back whole, and as the same expression up to the ranges of its parts. -/
theorem parse_print (sp : Spelling) (e : Expr) (h : e.Printable) (stop : Nat) (place : Place)
    (ts : List Placed) (hts : ts.map Placed.token = e.print sp) :
    ∃ e', (do let p ← parse stop ts; finish place p.value p.rest) = .ok e' ∧ e'.plain = e.plain := by
  obtain ⟨e', he, ht⟩ := (readBack sp e h).full.takes ts [] hts trivial
  have hr := ht.read stop
  rw [List.append_nil] at hr
  obtain ⟨hl, hr⟩ := parsed_of_seen hr
  exact ⟨e', by rw [hr]; rfl, he⟩

/-- The expression of `(a ?? b) ?? -f(c, 1 - (2 - 3)).d ? true : x ? y : z`. -/
def nested : Expr :=
  .choice
    (.binary .coalesce (.binary .coalesce (.name "a" default) (.name "b" default) default)
      (.unary .neg
        (.member
          (.call (.name "f" default)
            [.name "c" default,
              .binary .sub (.literal (.int 1 .i32) default)
                (.binary .sub (.literal (.int 2 .i32) default) (.literal (.int 3 .i32) default) default)
                default]
            default)
          "d" default default)
        default)
      default)
    (.literal (.bool true) default)
    (.choice (.name "x" default) (.name "y" default) (.name "z" default) default) default

theorem parse_print_nested :
    nested.Printable ∧
      nested.print .standard =
        [.fixed .lParen, .name "a", .fixed .coalesce, .name "b", .fixed .rParen, .fixed .coalesce,
          .fixed .minus, .name "f", .fixed .lParen, .name "c", .fixed .comma, .integer 1 .none, .fixed .minus,
          .fixed .lParen, .integer 2 .none, .fixed .minus, .integer 3 .none, .fixed .rParen, .fixed .rParen,
          .fixed .dot, .name "d", .fixed .question, .fixed .trueWord, .fixed .colon, .name "x",
          .fixed .question, .name "y", .fixed .colon, .name "z"] ∧
      ∃ e', (do
          let p ← parse 0 ((nested.print .standard).map fun t => ⟨t, default⟩)
          finish default p.value p.rest) = .ok e' ∧ e'.plain = nested.plain := by
  have hp : nested.Printable := by
    simp only [nested, Printable, AllPrintable, and_true, true_and]
    exact ⟨⟨⟨.integer 1 .none, fun _ => rfl⟩, ⟨.integer 2 .none, fun _ => rfl⟩,
      ⟨.integer 3 .none, fun _ => rfl⟩⟩, ⟨.fixed .trueWord, fun _ => rfl⟩⟩
  refine ⟨hp, ?_, parse_print .standard nested hp 0 default _ ?_⟩
  · simp [nested, print, printArgs, enclosed, level, BinaryOp.level, BinaryOp.leftLevel, BinaryOp.rightLevel,
      Spelling.standard, Spelling.literalToken, IntKind.suffix]
  · rw [List.map_map]
    exact List.map_id _

end Expr

end Stencil
