import Stencil.Proofs.Expr.Shift
import Stencil.Proofs.Token.Scans
/-!
Where the nodes of an expression stand. The tokens of a node are an expression of their own, and the range of
the node is what they cover; the parts of a node stand within it, in order and apart. So the text at a node's
range reads as the node.
-/
set_option autoImplicit false

namespace Stencil.Expr

/-- A part of a node: an expression below it, or the name after a dot. -/
inductive Part where
  | expr (e : Expr)
  | name (span : Span)

def Part.span : Part → Span
  | expr e => e.span
  | name s => s

def parts : Expr → List Part
  | literal _ _ | name _ _ | context _ _ => []
  | member t _ s _ => [.expr t, .name s]
  | index t i _ => [.expr t, .expr i]
  | call c args _ => .expr c :: args.map .expr
  | unary _ e _ => [.expr e]
  | binary _ l r _ => [.expr l, .expr r]
  | choice c t e _ => [.expr c, .expr t, .expr e]
  | guarded c t _ => [.expr c, .expr t]

@[simp] theorem parts_withSpan (s : Span) (e : Expr) : (e.withSpan s).parts = e.parts := by cases e <;> rfl

inductive Node : Expr → Expr → Prop
  | root {e : Expr} : Node e e
  | inner {e child n : Expr} (hc : .expr child ∈ e.parts) (h : Node child n) : Node e n

namespace Level

variable {k : Nat} {ts rest more mid : List Placed} {e left : Expr}

/-! ### Expressions that fill a token list -/

/-- The least strength of an operator that a level would still take. -/
def threshold? : Level → Option Nat
  | expression | conditional => some 0
  | operands k | operators k _ => some k
  | _ => none

theorem Takes.operator_next {l : Level} (h : Takes l mid e rest) :
    ∀ k, l.threshold? = some k → operator? k rest = none := by
  induction h with
  | plain _ _ _ ih => exact ih
  | choice _ _ _ _ _ _ ihn => exact ihn
  | whole _ ih => exact ih
  | guarded _ _ _ _ ihy => exact ihy
  | branches _ _ _ _ _ ihn => exact ihn
  | operands _ _ _ ihb => exact ihb
  | ends h => rintro _ ⟨⟩; exact h
  | operator _ _ _ _ _ ihb => exact ihb
  | _ => rintro _ ⟨⟩

/-- At the end of the tokens it does not matter how strong an operator had to be. -/
theorem Takes.any_strength (h : Takes (.operators k left) mid e []) : Takes (.operators 0 left) mid e [] := by
  generalize hl : Level.operators k left = l at h
  generalize hr : ([] : List Placed) = r at h
  induction h generalizing left with
  | ends h => cases hl; exact .ends (hr ▸ rfl)
  | operator ho hk hop hb _ ih => cases hl; exact .operator ho (Nat.zero_le _) hop (ih rfl hr)
  | _ => cases hl

/-- Operands that fill the tokens are an expression, a conditional among them standing alone. -/
theorem Takes.of_operands (h : Takes (.operands k) mid e []) : Takes .expression mid e [] := by
  cases h with
  | @operands _ a b _ left _ ha hb =>
    have hplain (hi : Placed.isNext .ifWord (a ++ b) = false) : Takes .expression (a ++ b) e [] :=
      .plain hi (.operands ha hb.any_strength) rfl
    cases ha with
    | branching h =>
      have hnone := h.operator_next 0 rfl
      cases hb with
      | ends => rw [List.append_nil]; exact .whole h
      | operator ho hk => simp [operator?, ho] at hnone
    | @unary s _ _ _ _ _ ho h =>
      refine hplain ?_
      cases s <;> first | rfl | cases ho
    | application h => exact hplain h.applied_starts.2

theorem Takes.of_operand (h : Takes .operand mid e []) : Takes .expression mid e [] :=
  .of_operands (k := 0) (List.append_nil mid ▸ .operands (by rwa [List.append_nil]) (.ends rfl))

theorem Takes.of_applied (h : Takes .applied mid e []) : Takes .expression mid e [] :=
  .of_operand (.application h)

theorem Takes.alone {l : Level} (h : Takes l mid e rest) : Takes l mid e [] := h.front List.nil_prefix

/-! ### Parts in a row -/

inductive Spelled : List Placed → Part → Prop
  | expr {mid : List Placed} {e : Expr} (h : Takes .expression mid e []) : Spelled mid (.expr e)
  | name (t : Placed) : Spelled [t] (.name t.span)

inductive Row : List Placed → List Part → Prop
  | nil {ts : List Placed} : Row ts []
  | cons {gap mid rest : List Placed} {p : Part} {ps : List Part} (hp : Spelled mid p) (h : Row rest ps) :
      Row (gap ++ (mid ++ rest)) (p :: ps)

theorem Row.after {ps : List Part} (h : Row ts ps) (gap : List Placed) : Row (gap ++ ts) ps := by
  cases h with
  | nil => exact .nil
  | cons hp h => rw [← List.append_assoc]; exact .cons hp h

theorem Row.before {ps : List Part} (h : Row ts ps) (more : List Placed) : Row (ts ++ more) ps := by
  induction h with
  | nil => exact .nil
  | cons hp h ih => simp only [List.append_assoc]; exact .cons hp ih

theorem Row.first {p : Part} {ps : List Part} (hp : Spelled mid p) (h : Row rest ps) : Row (mid ++ rest) (p :: ps) :=
  @Row.cons [] _ _ _ _ hp h

theorem Row.last {p : Part} (hp : Spelled mid p) : Row mid [p] := by
  have := Row.first hp (Row.nil : Row [] [])
  rwa [List.append_nil] at this

structure Stands (mid : List Placed) (e : Expr) : Prop where
  covers : Placed.Covers mid e.span
  row : Row mid e.parts

theorem covers_upTo {a b : List Placed} {s₁ s₂ : Span} (h₁ : Placed.Covers a s₁) (h₂ : Placed.Covers b s₂)
    (gap : List Placed) (hts : ts = a ++ gap ++ b) : Placed.Covers ts (upTo s₁ s₂) :=
  hts ▸ h₁.join h₂ gap

/-- What `goal` takes after the tokens before it, `source` takes with them, up to any front of what follows. -/
def Feeds (goal source : Level) (before ts : List Placed) : Prop :=
  ∀ b e rest, b ++ rest <+: ts → Takes goal b e rest → Takes source (before ++ b) e rest

/-- What is claimed of the tokens a level takes; a level that goes on from an expression claims it of the
tokens of that expression and its own. -/
def Claim : Level → List Placed → Expr → List Placed → Prop
  | operators k left, mid, e, rest =>
    ∀ before, Feeds (operators k left) (operands k) before (mid ++ rest) → Stands before left → Stands (before ++ mid) e
  | suffixes e₀, mid, e, rest =>
    ∀ before, Feeds (suffixes e₀) applied before (mid ++ rest) → Stands before e₀ → Stands (before ++ mid) e
  | arguments c, mid, e, _ =>
    ∃ args init t, e = .call c args (upTo c.span t.span) ∧ mid = init ++ [t] ∧ Row init (args.map .expr)
  | _, mid, e, _ => Stands mid e

theorem span_of_ofToken? {t : Placed} (h : ofToken? t = some (.ok e)) : e.span = t.span ∧ e.parts = [] := by
  obtain ⟨t, span⟩ := t
  cases t with
  | fixed s => cases s <;> cases h <;> exact ⟨rfl, rfl⟩
  | integer v suffix =>
    simp only [ofToken?] at h
    split at h
    · cases h
      exact ⟨rfl, rfl⟩
    · cases h
  | _ =>
    cases h
    exact ⟨rfl, rfl⟩

theorem Feeds.operand {before : List Placed} (h : Feeds (operators k left) (operands k) before ts) :
    Takes expression before left [] := by
  have := h [] left [] List.nil_prefix (.ends rfl)
  rw [List.append_nil] at this
  exact this.of_operands

theorem Feeds.target {before : List Placed} (h : Feeds (suffixes e) applied before ts) :
    Takes expression before e [] := by
  have := h [] e [] List.nil_prefix (.bare rfl rfl rfl)
  rw [List.append_nil] at this
  exact this.of_applied

/-- Tokens that take a level one step on, given what they do before what follows them. -/
theorem Feeds.step {goal goal' source : Level} {before ts₁ : List Placed} (h : Feeds goal source before ts₁)
    (a ts₂ : List Placed) (hts : ts₁ = a ++ ts₂)
    (ha : ∀ b e rest, b ++ rest <+: ts₂ → Takes goal' b e rest → Takes goal (a ++ b) e rest) :
    Feeds goal' source (before ++ a) ts₂ := by
  intro b e rest hm hb
  rw [List.append_assoc]
  exact h _ _ _ (by simpa [hts] using hm) (ha b e rest hm hb)

theorem Takes.claim {l : Level} (h : Takes l mid e rest) : Claim l mid e rest := by
  induction h with
  | plain _ _ _ ih => exact ih
  | @choice c y n rest test yes no mark colon hi hc hy hn ihc ihy ihn =>
    exact {
      covers := covers_upTo ihc.covers ihn.covers (⟨.fixed .question, mark⟩ :: (y ++ [⟨.fixed .colon, colon⟩])) (by simp)
      row := .first (.expr hc.alone.of_operands)
        (.after (.first (.expr hy.alone) (.after (.last (.expr hn.alone)) [_])) [_]) }
  | whole _ ih => exact ih
  | @guarded c y rest test yes word hc hy he ihc ihy =>
    exact {
      covers := covers_upTo (Placed.covers_single ⟨.fixed .ifWord, word⟩) ihy.covers c rfl
      row := .after (.first (.expr hc.alone.of_operands) (.last (.expr hy.alone))) [_] }
  | @branches c y n rest test yes no word other hc hy hn ihc ihy ihn =>
    exact {
      covers := covers_upTo (Placed.covers_single ⟨.fixed .ifWord, word⟩) ihn.covers
        (c ++ (y ++ [⟨.fixed .elseWord, other⟩])) (by simp)
      row := .after (.first (.expr hc.alone.of_operands)
        (.first (.expr hy.alone) (.after (.last (.expr hn.alone)) [_]))) [_] }
  | @operands k a b rest left e ha hb iha ihb =>
    exact ihb a (fun b' e' rest' hm h => .operands (ha.front hm) h) iha
  | ends => intro before _ hs; rwa [List.append_nil]
  | @operator k s span op r b rest left right e ho hk hr hb ihr ihb =>
    intro before hf hs
    have hnode : Stands (before ++ ⟨.fixed s, span⟩ :: r) (.binary op left right (upTo left.span right.span)) := {
      covers := covers_upTo hs.covers ihr.covers [⟨.fixed s, span⟩] (by simp)
      row := .first (.expr hf.operand) (.after (.last (.expr hr.alone.of_operands)) [_]) }
    have hfeeds := hf.step (⟨.fixed s, span⟩ :: r) (b ++ rest) (by simp)
      fun b' e' rest' hm h => .operator ho hk (hr.front hm) h
    simpa using ihb _ hfeeds hnode
  | @unary s span op ts rest e ho h ih =>
    exact {
      covers := covers_upTo (Placed.covers_single ⟨.fixed s, span⟩) ih.covers [] rfl
      row := .after (.last (.expr h.alone.of_operand)) [_] }
  | branching _ ih => exact ih
  | application _ ih => exact ih
  | @applied a b rest e e' ha hb iha ihb =>
    exact ihb a (fun b' e' rest' hm h => .applied (ha.front hm) h) iha
  | bare => intro before _ hs; rwa [List.append_nil]
  | @member e e' dot t n ts rest hn h ih =>
    intro before hf hs
    have hnode : Stands (before ++ [⟨.fixed .dot, dot⟩, t]) (.member e n t.span (upTo e.span t.span)) := {
      covers := covers_upTo hs.covers (Placed.covers_single t) [⟨.fixed .dot, dot⟩] (by simp)
      row := .first (.expr hf.target) (.after (.last (.name t)) [_]) }
    have hfeeds := hf.step [⟨.fixed .dot, dot⟩, t] (ts ++ rest) rfl
      fun b' e' rest' _ h => .member hn h
    simpa using ih _ hfeeds hnode
  | @call e e₁ e₂ opening a b rest ha hb iha ihb =>
    intro before hf hs
    obtain ⟨args, init, t, rfl, rfl, hrow⟩ := iha
    have hnode : Stands (before ++ ⟨.fixed .lParen, opening⟩ :: (init ++ [t])) (.call e args (upTo e.span t.span)) := {
      covers := covers_upTo hs.covers (Placed.covers_single t) (⟨.fixed .lParen, opening⟩ :: init) (by simp)
      row := .first (.expr hf.target) (.after (hrow.before [t]) [_]) }
    have hfeeds := hf.step (⟨.fixed .lParen, opening⟩ :: (init ++ [t])) (b ++ rest) (by simp)
      fun b' e' rest' hm h => .call (ha.front hm) h
    simpa using ihb _ hfeeds hnode
  | @index e i e' opening closing a b rest ha hb iha ihb =>
    intro before hf hs
    have hnode : Stands (before ++ ⟨.fixed .lBracket, opening⟩ :: (a ++ [⟨.fixed .rBracket, closing⟩]))
        (.index e i (upTo e.span closing)) := {
      covers := covers_upTo hs.covers (Placed.covers_single ⟨.fixed .rBracket, closing⟩)
        (⟨.fixed .lBracket, opening⟩ :: a) (by simp)
      row := .first (.expr hf.target) (.after (.first (.expr ha.alone) .nil) [_]) }
    have hfeeds := hf.step (⟨.fixed .lBracket, opening⟩ :: (a ++ [⟨.fixed .rBracket, closing⟩])) (b ++ rest)
      (by simp) fun b' e' rest' hm h => by
        have := ha.front (show ⟨.fixed .rBracket, closing⟩ :: (b' ++ rest') <+: _ by simpa using hm)
        simpa using this.index h
    simpa using ihb _ hfeeds hnode
  | @noArguments c closing rest => exact ⟨[], [], ⟨.fixed .rParen, closing⟩, rfl, rfl, .nil⟩
  | @lastArgument c arg closing a rest hne ha iha =>
    exact ⟨[arg], a, ⟨.fixed .rParen, closing⟩, rfl, rfl, .last (.expr ha.alone)⟩
  | @moreArguments c arg args span comma a b rest hne ha hb iha ihb =>
    obtain ⟨args', init, t, heq, rfl, hrow⟩ := ihb
    cases heq
    exact ⟨arg :: args, a ++ ⟨.fixed .comma, comma⟩ :: init, t, rfl, by simp,
      .first (.expr ha.alone) (hrow.after [_])⟩
  | token h =>
    obtain ⟨hspan, hparts⟩ := span_of_ofToken? h
    exact ⟨hspan ▸ Placed.covers_single _, hparts ▸ .nil⟩
  | @enclosed e opening closing a rest h ih =>
    exact {
      covers := span_withSpan _ e ▸ covers_upTo (Placed.covers_single ⟨.fixed .lParen, opening⟩)
        (Placed.covers_single ⟨.fixed .rParen, closing⟩) a (by simp)
      row := parts_withSpan _ e ▸ (ih.row.before _).after [_] }

/-! ### Nodes in the text -/

theorem Row.exists_of_mem {p : Part} {ps : List Part} (h : Row ts ps) (hp : p ∈ ps) :
    ∃ a mid b, ts = a ++ mid ++ b ∧ Spelled mid p := by
  induction h with
  | nil => cases hp
  | @cons gap mid rest q qs hq h ih =>
    rcases List.mem_cons.1 hp with rfl | hp
    · exact ⟨gap, mid, rest, by simp, hq⟩
    · obtain ⟨a, mid', b, rfl, hs⟩ := ih hp
      exact ⟨gap ++ (mid ++ a), mid', b, by simp, hs⟩

theorem Takes.stands (h : Takes .expression mid e rest) : Stands mid e := h.claim

theorem Spelled.covers {p : Part} (h : Spelled mid p) : Placed.Covers mid p.span := by
  cases h with
  | expr h => exact h.stands.covers
  | name t => exact Placed.covers_single t

theorem Takes.node {n : Expr} (hn : Node e n) (h : Takes .expression ts e []) :
    ∃ a mid b, ts = a ++ mid ++ b ∧ Takes .expression mid n [] := by
  induction hn generalizing ts with
  | root => exact ⟨[], ts, [], by simp, h⟩
  | inner hc _ ih =>
    obtain ⟨a, mid, b, rfl, hs⟩ := h.stands.row.exists_of_mem hc
    cases hs with
    | expr hs =>
      obtain ⟨a', mid', b', rfl, hn⟩ := ih hs
      exact ⟨a ++ a', mid', b' ++ b, by simp, hn⟩

end Level

open Level (Takes Row Spelled)

theorem ofText_eq_ok_iff {text : String} {base : Nat} {e : Expr} :
    ofText text base = .ok e ↔ ∃ ts, Token.Scans base text.toList ts ∧ Takes .expression ts e [] := by
  rw [ofText, readWhole_eq_ok_iff]
  constructor
  · rintro ⟨ts, hts, hread⟩
    obtain ⟨mid, rfl, ht⟩ := Level.read_eq_ok_iff.1 (show Level.read _ .expression ts = _ from hread)
    exact ⟨mid, by simpa using Token.ofText_iff.1 hts, ht⟩
  · rintro ⟨ts, hts, ht⟩
    have hread := ht.read (Placed.endOf base ts)
    rw [List.append_nil] at hread
    exact ⟨ts, Token.ofText_iff.2 hts, hread⟩

theorem part_within {pos : Nat} {cs : List Char} {ts : List Placed} {s : Span} {ps : List Part}
    (hts : Token.Scans pos cs ts) (hs : Placed.Covers ts s) (h : Row ts ps) :
    ∀ p ∈ ps, s.start ≤ p.span.start ∧ p.span.start < p.span.stop ∧ p.span.stop ≤ s.stop := by
  intro p hp
  obtain ⟨a, mid, b, rfl, hm⟩ := h.exists_of_mem hp
  exact hts.within hs hm.covers

theorem parts_ordered {ts : List Placed} {ps : List Part}
    (hts : ts.Pairwise fun t u => t.span.stop ≤ u.span.start) (h : Row ts ps) :
    ps.Pairwise fun p q => p.span.stop ≤ q.span.start := by
  induction h with
  | nil => exact .nil
  | @cons gap mid rest p ps hp h ih =>
    obtain ⟨-, hmid, -⟩ := List.pairwise_append.1 hts
    obtain ⟨-, hrest, hacross⟩ := List.pairwise_append.1 hmid
    refine List.pairwise_cons.2 ⟨fun q hq => ?_, ih hrest⟩
    obtain ⟨a, mid', b, rfl, hm⟩ := h.exists_of_mem hq
    obtain ⟨_, last, -, hlast, hps⟩ := hp.covers
    obtain ⟨first, _, hfirst, -, hqs⟩ := hm.covers
    have hmem : first ∈ a ++ mid' ++ b := by simp [List.mem_of_head? hfirst]
    rw [hps, hqs]
    exact hacross last (List.mem_of_getLast? hlast) first hmem

/-- The text at the range of a node reads, from where it stands, as the node with all its ranges. The parts of
the node stand within it, in order and apart. -/
theorem node_reads_back {text : String} {base : Nat} {e n : Expr} (h : ofText text base = .ok e) (hn : Node e n) :
    (base ≤ n.span.start ∧ ∃ piece,
      Text.slice? text.toList (n.span.start - base) (n.span.stop - base) = some piece ∧
        ofText (String.ofList piece) n.span.start = .ok n) ∧
      (∀ p ∈ n.parts, n.span.start ≤ p.span.start ∧ p.span.start < p.span.stop ∧ p.span.stop ≤ n.span.stop) ∧
      n.parts.Pairwise fun p q => p.span.stop ≤ q.span.start := by
  obtain ⟨ts, hts, ht⟩ := ofText_eq_ok_iff.1 h
  obtain ⟨before, mid, after, rfl, hm⟩ := ht.node hn
  obtain ⟨a, b, c, htext, hstart, hstop, hscan⟩ := hts.piece hm.stands.covers
  refine ⟨⟨by omega, b, ?_, ?_⟩, part_within hscan hm.stands.covers hm.stands.row,
    parts_ordered hscan.ordered.1 hm.stands.row⟩
  · exact Text.slice?_eq_some_iff.2 ⟨a, c, htext, by omega, by omega⟩
  · exact ofText_eq_ok_iff.2 ⟨mid, by simpa using hscan, hm⟩

theorem node_reads_back_enclosed :
    let operand : Expr := .unary .neg (.name "a" ⟨15, 18⟩) ⟨14, 18⟩
    let whole : Expr := .index (.member (.name "p" ⟨10, 11⟩) "q" ⟨12, 13⟩ ⟨10, 13⟩) operand ⟨10, 19⟩
    ofText "p.q[-(a)]" 10 = .ok whole ∧ Node whole operand ∧ (10 ≤ operand.span.start ∧ ∃ piece,
      Text.slice? "p.q[-(a)]".toList (operand.span.start - 10) (operand.span.stop - 10) = some piece ∧
        ofText (String.ofList piece) operand.span.start = .ok operand) ∧
      (∀ p ∈ operand.parts, operand.span.start ≤ p.span.start ∧ p.span.start < p.span.stop ∧
        p.span.stop ≤ operand.span.stop) ∧
      operand.parts.Pairwise fun p q => p.span.stop ≤ q.span.start := by
  intro operand whole
  have h : ofText "p.q[-(a)]" 10 = .ok whole := by with_unfolding_all rfl
  have hn : Node whole operand := .inner (by simp [whole, parts]) .root
  exact ⟨h, hn, node_reads_back h hn⟩

end Stencil.Expr
