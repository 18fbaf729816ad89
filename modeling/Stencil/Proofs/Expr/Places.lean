import Stencil.Proofs.Expr.Nodes
import Stencil.Proofs.Text.Boundary
set_option autoImplicit false

namespace Stencil

namespace Placed

/-- A condition on ranges that holds at the end of the tokens, and of what any of them in a row cover. -/
structure Sites (P : Span → Prop) (stop : Nat) (ts : List Placed) : Prop where
  stop : P (.point stop)
  covers : ∀ {mid : List Placed} {s : Span}, mid <:+: ts → Covers mid s → P s

namespace Sites

variable {P : Span → Prop} {stop : Nat} {ts rest : List Placed}

theorem suffix (h : Sites P stop ts) (hr : rest <:+ ts) : Sites P stop rest :=
  ⟨h.stop, fun hm => h.covers (hm.trans hr.isInfix)⟩

theorem token (h : Sites P stop ts) {t : Placed} (ht : t ∈ ts) : P t.span := by
  obtain ⟨a, b, rfl⟩ := List.append_of_mem ht
  exact h.covers ⟨a, b, by simp⟩ (covers_single t)

theorem marks (h : Sites P stop ts) : Marks P stop ts := ⟨h.stop, fun _ => h.token⟩

end Sites

end Placed

open Placed (Sites)

namespace Expr

/-- A condition holds of the ranges of all nodes of an expression and of all names after a dot. -/
def Within (P : Span → Prop) (e : Expr) : Prop := ∀ n, Node e n → P n.span ∧ ∀ p ∈ n.parts, P p.span

namespace Within

variable {P : Span → Prop} {e : Expr}

theorem span (h : e.Within P) : P e.span := (h e .root).1

theorem part (h : e.Within P) {p : Part} (hp : p ∈ e.parts) : P p.span := (h e .root).2 p hp

theorem child (h : e.Within P) {c : Expr} (hc : .expr c ∈ e.parts) : c.Within P := fun n hn => h n (.inner hc hn)

theorem any (e : Expr) : e.Within fun _ => True := fun _ _ => ⟨trivial, fun _ _ => trivial⟩

theorem memberName {n : String} {ns span : Span} (h : (member e n ns span).Within P) : P ns :=
  h.part (p := .name ns) (by simp [parts])

theorem args {xs : List Expr} {span : Span} (h : (call e xs span).Within P) : ∀ x ∈ xs, x.Within P :=
  fun x hx => h.child (by simp [parts, hx])

theorem path (h : e.Within P) {ss : List Segment} (hp : e.path? = some ss) : ∀ s ∈ ss, P s.span := by
  induction e using path?.induct generalizing ss with
  | case1 n span =>
    cases hp
    exact List.forall_mem_singleton.2 h.span
  | case2 t n ns span iht =>
    obtain ⟨front, hf, rfl⟩ := Option.map_eq_some_iff.1 hp
    have hfront := iht (h.child (by simp [parts])) hf
    exact List.forall_mem_append.2 ⟨hfront, List.forall_mem_singleton.2 h.memberName⟩
  | case3 e hn hm =>
    rw [path?] at hp
    · cases hp
    · exact hn
    · exact hm

end Within

namespace Level

variable {P : Span → Prop} {stop : Nat} {ts rest : List Placed} {e : Expr}

theorem within_of_takes (hs : Sites P stop ts) {mid : List Placed} (hm : mid <:+: ts)
    (h : Takes .expression mid e rest) : e.Within P := by
  intro n hn
  obtain ⟨a, sub, b, rfl, ht⟩ := h.alone.node hn
  have hsub : sub <:+: ts := List.IsInfix.trans ⟨a, b, rfl⟩ hm
  refine ⟨hs.covers hsub ht.stands.covers, fun p hp => ?_⟩
  obtain ⟨a', mid', b', rfl, hsp⟩ := ht.stands.row.exists_of_mem hp
  exact hs.covers (List.IsInfix.trans ⟨a', b', rfl⟩ hsub) hsp.covers

end Level

def Left (ts rest : List Placed) : Prop := rest <:+ ts ∧ rest.length < ts.length

theorem Left.trans {ts rest more : List Placed} (h : Left ts rest) (h' : Left rest more) : Left ts more :=
  ⟨h'.1.trans h.1, Nat.lt_trans h'.2 h.2⟩

theorem Left.tail {ts rest : List Placed} (h : Left ts rest) : Left ts rest.tail :=
  ⟨(List.tail_suffix rest).trans h.1, Nat.lt_of_le_of_lt (List.tail_suffix rest).length_le h.2⟩

/-- Two readings of which the second is the first shifted, which fail where a condition holds of the place, take a
token and read what satisfies another condition. -/
abbrev Sited {α : Type} (k : Nat) (P : Span → Prop) (f : α → α) (Q : α → Prop) (ts : List Placed)
    (x y : Except SyntaxError (α × List Placed)) : Prop :=
  Reread k P f (fun a rest => Left ts rest ∧ Q a) x y

namespace Sited

variable {α : Type} {k : Nat} {P : Span → Prop} {f : α → α} {Q : α → Prop} {stop : Nat} {ts rest : List Placed}
  {x y : Except SyntaxError (α × List Placed)}

theorem after (hx : Sited k P f Q rest x y) (hl : Left ts rest) : Sited k P f Q ts x y :=
  hx.imp fun _ _ h => ⟨hl.trans h.1, h.2⟩

theorem take (s : Symbol) (hs : Sites P stop ts) :
    Sited k P (Span.shift · k) P ts (take s stop ts) (take s (stop + k) (ts.map (Placed.shift k))) := by
  refine (Reread.take s hs.marks).imp ?_
  rintro span rest rfl
  exact ⟨⟨List.suffix_cons _ rest, by simp⟩, hs.token List.mem_cons_self⟩

end Sited

end Expr

def LetBinding.Within (P : Span → Prop) (b : LetBinding) : Prop := P b.nameSpan ∧ b.value.Within P

def DefineForm.Within (P : Span → Prop) : DefineForm → Prop
  | value _ e => e.Within P
  | body params => ∀ ss ∈ params, ∀ s ∈ ss, P s.span

def DefineHead.Within (P : Span → Prop) (h : DefineHead) : Prop := P h.nameSpan ∧ h.form.Within P

namespace Arguments

open Stencil.Expr (Sited Left Segment)

variable {k : Nat} {P : Span → Prop} {stop : Nat} {ts : List Placed}

theorem sited_takeName (hs : Sites P stop ts) :
    Sited k P (Segment.shift k) (fun n => P n.span) ts (takeName stop ts)
      (takeName (stop + k) (ts.map (Placed.shift k))) := by
  cases ts with
  | nil => exact .error hs.stop
  | cons t ts =>
    have ht := hs.token List.mem_cons_self
    obtain ⟨t, span⟩ := t
    cases t with
    | name n => exact .ok rfl ⟨⟨List.suffix_cons _ ts, by simp⟩, ht⟩
    | _ => exact .error ht

theorem sited_takeExpr (hs : Sites P stop ts) :
    Sited k P (Expr.shift k) (Expr.Within P) ts (takeExpr stop ts)
      (takeExpr (stop + k) (ts.map (Placed.shift k))) := by
  refine (Expr.Level.reads k P stop .expression ts hs.marks).imp ?_
  rintro e rest ⟨mid, rfl, h⟩
  exact ⟨⟨List.suffix_append mid rest, h.length_lt rfl⟩, Expr.Level.within_of_takes hs ⟨[], rest, rfl⟩ h⟩

theorem sited_takeBindings (hs : Sites P stop ts) :
    Sited k P (List.map (LetBinding.shift k)) (fun bs => ∀ b ∈ bs, b.Within P) ts (takeBindings stop ts)
      (takeBindings (stop + k) (ts.map (Placed.shift k))) := by
  induction hn : ts.length using Nat.strongRecOn generalizing ts with
  | ind n ih =>
    subst hn
    rw [takeBindings_eq, takeBindings_eq]
    unfold bindingsStep
    refine (sited_takeName hs).bind fun name rest ⟨hl, hname⟩ => ?_
    refine ((Sited.take .eq (hs.suffix hl.1)).after hl).bind fun _ rest₁ ⟨hl₁, _⟩ => ?_
    refine ((sited_takeExpr (hs.suffix hl₁.1)).after hl₁).bind fun value rest₂ ⟨hl₂, hvalue⟩ => ?_
    simp only [Placed.isNext_shift, ← List.map_tail]
    split
    · refine ((ih _ hl₂.tail.2 (hs.suffix hl₂.tail.1) rfl).after hl₂.tail).bind fun more rest₃ ⟨hl₃, hmore⟩ => ?_
      exact .ok rfl ⟨hl₃, List.forall_mem_cons.2 ⟨⟨hname, hvalue⟩, hmore⟩⟩
    · exact .ok rfl ⟨hl₂, by simpa using ⟨hname, hvalue⟩⟩

theorem sited_takeParameters (hs : Sites P stop ts) :
    Sited k P (List.map (Segment.shift k)) (fun ss => ∀ s ∈ ss, P s.span) ts (takeParameters stop ts)
      (takeParameters (stop + k) (ts.map (Placed.shift k))) := by
  induction hn : ts.length using Nat.strongRecOn generalizing ts with
  | ind n ih =>
    subst hn
    rw [takeParameters_eq, takeParameters_eq]
    unfold parametersStep
    simp only [Placed.isNext_shift]
    split
    · exact (Sited.take .rParen hs).bind fun _ rest ⟨hl, _⟩ => .ok rfl ⟨hl, by simp⟩
    · refine (sited_takeName hs).bind fun name rest ⟨hl, hname⟩ => ?_
      simp only [Placed.isNext_shift]
      split
      · refine ((Sited.take .rParen (hs.suffix hl.1)).after hl).bind fun _ rest₁ ⟨hl₁, _⟩ => ?_
        exact .ok rfl ⟨hl₁, by simpa using hname⟩
      · refine ((Sited.take .comma (hs.suffix hl.1)).after hl).bind fun _ rest₁ ⟨hl₁, _⟩ => ?_
        refine ((ih _ hl₁.2 (hs.suffix hl₁.1) rfl).after hl₁).bind fun more rest₂ ⟨hl₂, hmore⟩ => ?_
        exact .ok rfl ⟨hl₂, List.forall_mem_cons.2 ⟨hname, hmore⟩⟩

theorem sited_takeHead (hs : Sites P stop ts) :
    Sited k P (DefineHead.shift k) (DefineHead.Within P) ts (takeHead stop ts)
      (takeHead (stop + k) (ts.map (Placed.shift k))) := by
  rw [takeHead_eq, takeHead_eq]
  refine (sited_takeName hs).bind fun name rest ⟨hl, hname⟩ => ?_
  have hvalue {more : List Placed} (hm : Left ts more) := (sited_takeExpr (k := k) (hs.suffix hm.1)).after hm
  simp only [Placed.isNext_shift, ← List.map_tail]
  split
  · split
    · exact (hvalue hl.tail.tail).bind fun _ _ ⟨hl₁, hv⟩ => .ok rfl ⟨hl₁, hname, hv⟩
    · exact (hvalue hl.tail).bind fun _ _ ⟨hl₁, hv⟩ => .ok rfl ⟨hl₁, hname, hv⟩
  · split
    · refine ((sited_takeParameters (hs.suffix hl.tail.1)).after hl.tail).bind fun params rest₁ ⟨hl₁, hparams⟩ => ?_
      exact .ok rfl ⟨hl₁, hname, by simpa [DefineForm.Within] using hparams⟩
    · exact .ok rfl ⟨hl, hname, by simp [DefineForm.Within]⟩

theorem sited_takeAssertion (hs : Sites P stop ts) :
    Sited k P (Prod.map (Expr.shift k) (Option.map (Expr.shift k))) (fun r => r.1.Within P ∧ ∀ m ∈ r.2, m.Within P) ts
      (takeAssertion stop ts) (takeAssertion (stop + k) (ts.map (Placed.shift k))) := by
  rw [takeAssertion_eq, takeAssertion_eq]
  refine (sited_takeExpr hs).bind fun predicate rest ⟨hl, hpredicate⟩ => ?_
  simp only [Placed.isNext_shift, ← List.map_tail]
  split
  · refine ((sited_takeExpr (hs.suffix hl.tail.1)).after hl.tail).bind fun message rest₁ ⟨hl₁, hmessage⟩ => ?_
    exact .ok rfl ⟨hl₁, hpredicate, by simpa using hmessage⟩
  · exact .ok rfl ⟨hl, hpredicate, by simp⟩

theorem sited_takeSegments (hs : Sites P stop ts) :
    Sited k P (List.map (Segment.shift k)) (· ≠ []) ts (takeSegments stop ts)
      (takeSegments (stop + k) (ts.map (Placed.shift k))) := by
  induction hn : ts.length using Nat.strongRecOn generalizing ts with
  | ind n ih =>
    subst hn
    rw [takeSegments_eq, takeSegments_eq]
    unfold segmentsStep
    cases ts with
    | nil => exact .error hs.stop
    | cons t rest =>
      have ht := hs.token List.mem_cons_self
      obtain ⟨t, span⟩ := t
      cases t with
      | name n =>
        have hl : Left (⟨.name n, span⟩ :: rest) rest := ⟨List.suffix_cons _ rest, by simp⟩
        simp only [List.map_cons, Placed.shift, Placed.isNext_shift, ← List.map_tail]
        split
        · refine ((ih _ hl.tail.2 (hs.suffix hl.tail.1) rfl).after hl.tail).bind fun more _ hmore => ?_
          exact .ok rfl ⟨hmore.1, List.cons_ne_nil _ _⟩
        · exact .ok rfl ⟨hl, List.cons_ne_nil _ _⟩
      | _ => exact .error ht

end Arguments

/-! ### Whole texts -/

open Text (slice? byteLength)
open Stencil.Span (Fits)

namespace Placed

variable {src : List Char} {text : String} {base limit : Nat}

theorem sites_of_scans {ts : List Placed} (hs : slice? src base limit = some text.toList)
    (h : Token.Scans base text.toList ts) : Sites (Fits src) (endOf base ts) ts := by
  have hcovers {mid : List Placed} {s : Span} (hm : mid <:+: ts) (hc : Covers mid s) : Fits src s := by
    obtain ⟨a, b, rfl⟩ := hm
    obtain ⟨pre, piece, post, htext, hstart, hstop, -⟩ := h.piece hc
    rw [htext] at hs
    have := Span.fits_of_slice? (Text.slice?_piece hs)
    rwa [← hstart, ← hstop] at this
  refine ⟨Span.fits_point ?_, hcovers⟩
  unfold endOf
  split
  · next t ht =>
    obtain ⟨a, b, rfl⟩ := List.append_of_mem (List.mem_of_getLast? ht)
    exact (hcovers ⟨a, b, by simp⟩ (covers_single t)).stop
  · exact (Span.fits_of_slice? hs).start

theorem fits_ofLexemes {pos : Nat} {cs : List Char} (hs : slice? src (pos + base) limit = some cs) :
    FailsOnly (fun e => Fits src e.span) (ofLexemes text base (Token.scanFrom pos cs)) := by
  induction pos, cs using Token.scanFrom.induct with
  | case1 => simpa [Token.scanFrom, ofLexemes] using FailsOnly.ok
  | case2 pos c cs hc ih =>
    have hrest := Text.slice?_after (a := [c]) hs
    rw [Token.scanFrom, if_pos hc]
    exact ih (by simpa [byteLength, Nat.add_right_comm] using hrest)
  | case3 pos c cs hc size =>
    rename_i ih
    obtain ⟨spelling, hcs, hb⟩ := Token.before_read c cs
    simp only [size, hb] at ih
    have hwhole : slice? src (pos + base) limit = some ((c :: spelling) ++ (Token.read c cs).2) := by
      rw [hs, List.cons_append, ← hcs]
    rw [Token.scanFrom, if_neg hc]
    simp only [hb]
    cases (Token.read c cs).1 with
    | none =>
      have := Span.fits_of_slice? (Text.slice?_piece (a := []) hwhole)
      exact .error (by simpa [Span.shift, byteLength, Nat.add_right_comm] using this)
    | some t =>
      rw [ofLexemes]
      have hrest := Text.slice?_after hwhole
      exact (ih (by rwa [Nat.add_right_comm] at hrest)).bind fun _ _ => .ok

theorem fits_ofText (hs : slice? src base limit = some text.toList) :
    FailsOnly (fun e => Fits src e.span) (ofText text base) :=
  fits_ofLexemes (by rwa [Nat.zero_add])

end Placed

namespace Expr

variable {α : Type} {src : List Char} {text : String} {base limit : Nat} {f : α → α} {Q : α → Prop}

def Reader.Sited (k : Nat) (P : Span → Prop) (f : α → α) (Q : α → Prop)
    (reader : Nat → (ts : List Placed) → Reading α ts) : Prop :=
  ∀ {stop ts}, Sites P stop ts → Expr.Sited k P f Q ts ((reader stop ts).map Parsed.seen)
    ((reader (stop + k) (ts.map (Placed.shift k))).map Parsed.seen)

theorem ensures_readWhole {P : Span → Prop} {reader : Nat → (ts : List Placed) → Reading α ts} (wanted : Wanted)
    (place : Place) (hsites : ∀ ts, Placed.ofText text base = .ok ts → Sites P (Placed.endOf base ts) ts)
    (hr : Reader.Sited 0 P f Q reader) : Ensures Q (readWhole wanted place reader text base) := by
  intro a h
  obtain ⟨ts, hts, hread⟩ := readWhole_eq_ok_iff.1 h
  exact ((hr (hsites ts hts)).reads hread).2

/-- Reading a whole text of a source, a reader points into the source only, and so does what it reads. -/
theorem fits_readWhole {reader : Nat → (ts : List Placed) → Reading α ts} (wanted : Wanted) (place : Place)
    (hs : slice? src base limit = some text.toList) (hr : Reader.Sited 0 (Fits src) f Q reader) :
    FailsOnly (fun e => Fits src e.span) (readWhole wanted place reader text base) ∧
      Ensures Q (readWhole wanted place reader text base) := by
  have hsites (ts : List Placed) (h : Placed.ofText text base = .ok ts) :=
    Placed.sites_of_scans hs (Token.ofText_iff.1 h)
  refine ⟨?_, ensures_readWhole wanted place hsites hr⟩
  rw [readWhole_eq]
  refine (Placed.fits_ofText hs).bind fun ts hts => ?_
  dsimp only
  split
  · have := Span.fits_of_slice? hs
    obtain ⟨_, _, -, -, rfl⟩ := Text.slice?_eq_some_iff.1 hs
    exact .error this
  · refine (hr (hsites ts hts)).fails.bind_read fun a rest h => ?_
    obtain ⟨⟨hl, -⟩, -⟩ := (hr (hsites ts hts)).reads h
    cases rest with
    | nil => exact .ok
    | cons t rest => exact .error ((hsites ts hts).token (hl.subset List.mem_cons_self))

end Expr

end Stencil
