import Stencil.Token.Placed
import Stencil.Proofs.Except
import Stencil.Proofs.Token.Lexing
/-!
The tokens of a text, seen as a relation between the text, where it starts and its tokens. Tokens stand in
order and apart from each other, and the piece of the text from one token to a later one has the tokens in
between and no others.
-/
set_option autoImplicit false

namespace Stencil

open Text (byteLength)

namespace Placed

/-- A range from the start of the first token to the end of the last one. -/
def Covers (ts : List Placed) (s : Span) : Prop :=
  ∃ first last, ts.head? = some first ∧ ts.getLast? = some last ∧ s = ⟨first.span.start, last.span.stop⟩

theorem covers_single (t : Placed) : Covers [t] t.span := ⟨t, t, rfl, rfl, rfl⟩

theorem Covers.join {ts₁ ts₂ : List Placed} {s₁ s₂ : Span} (h₁ : Covers ts₁ s₁) (h₂ : Covers ts₂ s₂)
    (gap : List Placed) : Covers (ts₁ ++ gap ++ ts₂) ⟨s₁.start, s₂.stop⟩ := by
  obtain ⟨first, _, hf, -, rfl⟩ := h₁
  obtain ⟨_, last, -, hl, rfl⟩ := h₂
  refine ⟨first, last, ?_, ?_, rfl⟩
  · simp [List.head?_append, hf]
  · simp [List.getLast?_append, hl]

end Placed

namespace Token

/-- The tokens of a text that starts at byte `pos`, every lexeme of it being one. -/
inductive Scans : Nat → List Char → List Placed → Prop
  | nil {pos : Nat} : Scans pos [] []
  | layout {pos : Nat} {c : Char} {cs : List Char} {ts : List Placed} (hc : isLayout c = true)
      (h : Scans (pos + c.utf8Size) cs ts) : Scans pos (c :: cs) ts
  | token {pos : Nat} {c : Char} {cs spelling rest : List Char} {t : Token} {ts : List Placed}
      (hc : isLayout c = false) (hcs : cs = spelling ++ rest) (hr : read c cs = (some t, rest))
      (h : Scans (pos + byteLength (c :: spelling)) rest ts) :
      Scans pos (c :: cs) (⟨t, ⟨pos, pos + byteLength (c :: spelling)⟩⟩ :: ts)

theorem before_read (c : Char) (cs : List Char) : ∃ spelling, cs = spelling ++ (read c cs).2 ∧
    Text.before (c :: cs) (read c cs).2 = c :: spelling := by
  obtain ⟨spelling, h⟩ := read_suffix c cs
  refine ⟨spelling, h.symm, ?_⟩
  have hb := Text.before_append (c :: spelling) (read c cs).2
  rwa [List.cons_append, h] at hb

variable {text : String} {base : Nat} {ts : List Placed} {s : Span}

theorem scans_of_ofLexemes {pos : Nat} {cs : List Char}
    (h : Placed.ofLexemes text base (scanFrom pos cs) = .ok ts) : Scans (pos + base) cs ts := by
  induction pos, cs using scanFrom.induct generalizing ts with
  | case1 =>
    simp only [scanFrom] at h
    cases h
    exact .nil
  | case2 pos c cs hc ih =>
    simp only [scanFrom, hc, if_true] at h
    refine .layout hc ?_
    have := ih h
    rwa [Nat.add_right_comm] at this
  | case3 pos c cs hc size =>
    rename_i ih
    obtain ⟨spelling, hcs, hb⟩ := before_read c cs
    simp only [size, hb] at ih
    simp only [scanFrom, hc, hb, Bool.false_eq_true, if_false] at h
    cases hr : (read c cs).1 with
    | none => rw [hr] at h; cases h
    | some t =>
      rw [hr, Placed.ofLexemes] at h
      obtain ⟨rest, hrest, h⟩ := exists_of_bind_ok h
      cases h
      have hscan := ih hrest
      rw [Nat.add_right_comm] at hscan
      have := Scans.token (by simpa using hc) hcs (Prod.ext hr rfl) hscan
      rwa [Nat.add_right_comm] at this

theorem ofLexemes_of_scans {pos : Nat} {cs : List Char}
    (h : Scans (pos + base) cs ts) : Placed.ofLexemes text base (scanFrom pos cs) = .ok ts := by
  generalize hp : pos + base = p at h
  induction h generalizing pos with
  | nil => simp [scanFrom, Placed.ofLexemes]
  | layout hc h ih =>
    rw [scanFrom, if_pos hc]
    exact ih (by omega)
  | @token p c cs spelling rest t ts hc hcs hr h ih =>
    subst hp
    have hb : Text.before (c :: cs) rest = c :: spelling := by
      rw [hcs, ← List.cons_append, Text.before_append]
    rw [scanFrom, if_neg (by simp [hc]), hr]
    simp only [hb, Placed.ofLexemes]
    rw [ih (by omega)]
    simp only [bind, Except.bind, pure, Except.pure, Span.shift]
    rw [Nat.add_right_comm]

theorem ofText_iff : Placed.ofText text base = .ok ts ↔ Scans base text.toList ts := by
  constructor
  · intro h
    have := scans_of_ofLexemes h
    rwa [Nat.zero_add] at this
  · intro h
    exact ofLexemes_of_scans (by rwa [Nat.zero_add])

/-! ### Cutting a text between tokens -/

variable {pos : Nat} {cs : List Char} {ts ts₁ ts₂ : List Placed} {t : Placed}

theorem Scans.from_token (h : Scans pos cs (ts₁ ++ t :: ts₂)) :
    ∃ pre rest, cs = pre ++ rest ∧ t.span.start = pos + byteLength pre ∧
      Scans t.span.start rest (t :: ts₂) := by
  generalize hts : ts₁ ++ t :: ts₂ = all at h
  induction h generalizing ts₁ with
  | nil => simp at hts
  | @layout pos c cs ts hc h ih =>
    obtain ⟨pre, rest, rfl, hstart, hscan⟩ := ih hts
    exact ⟨c :: pre, rest, rfl, by simp only [hstart, byteLength]; omega, hscan⟩
  | @token pos c cs spelling rest' t' ts hc hcs hr h ih =>
    cases ts₁ with
    | nil =>
      obtain ⟨rfl, rfl⟩ := List.cons.inj hts
      exact ⟨[], c :: cs, rfl, rfl, .token hc hcs hr h⟩
    | cons u ts₁ =>
      obtain ⟨rfl, htail⟩ := List.cons.inj hts
      obtain ⟨pre, rest, rfl, hstart, hscan⟩ := ih htail
      exact ⟨c :: spelling ++ pre, rest, by simp [hcs], by simp only [hstart, Text.byteLength_append]; omega,
        hscan⟩

theorem Scans.up_to (h : Scans pos cs (ts₁ ++ t :: ts₂)) :
    ∃ front rest, cs = front ++ rest ∧ t.span.stop = pos + byteLength front ∧
      Scans pos front (ts₁ ++ [t]) := by
  generalize hts : ts₁ ++ t :: ts₂ = all at h
  induction h generalizing ts₁ with
  | nil => simp at hts
  | @layout pos c cs ts hc h ih =>
    obtain ⟨front, rest, rfl, hstop, hscan⟩ := ih hts
    exact ⟨c :: front, rest, rfl, by simp only [hstop, byteLength]; omega, .layout hc hscan⟩
  | @token pos c cs spelling rest' t' ts hc hcs hr h ih =>
    subst hcs
    cases ts₁ with
    | nil =>
      obtain ⟨rfl, rfl⟩ := List.cons.inj hts
      have hfront : read c spelling = (some t', []) := read_front (by rw [hr, List.nil_append])
      exact ⟨c :: spelling, rest', rfl, rfl, .token hc (by simp) hfront .nil⟩
    | cons u ts₁ =>
      obtain ⟨rfl, htail⟩ := List.cons.inj hts
      obtain ⟨front, rest, rfl, hstop, hscan⟩ := ih htail
      have hfront : read c (spelling ++ front) = (some t', front) :=
        read_front (by rw [List.append_assoc, hr])
      exact ⟨c :: (spelling ++ front), rest, by simp, by
        simp only [hstop, byteLength, Text.byteLength_append]; omega, .token hc rfl hfront hscan⟩

theorem Scans.piece {mid : List Placed} (h : Scans pos cs (ts₁ ++ mid ++ ts₂)) (hs : Placed.Covers mid s) :
    ∃ a b c, cs = a ++ b ++ c ∧ s.start = pos + byteLength a ∧ s.stop = s.start + byteLength b ∧
      Scans s.start b mid := by
  obtain ⟨first, last, hfirst, hlast, rfl⟩ := hs
  obtain ⟨tail, rfl⟩ := List.head?_eq_some_iff.1 hfirst
  obtain ⟨init, hinit⟩ := List.getLast?_eq_some_iff.1 hlast
  obtain ⟨a, rest, rfl, hstart, hscan⟩ := Scans.from_token (by simpa using h)
  rw [← List.cons_append, hinit, List.append_assoc] at hscan
  obtain ⟨b, c, rfl, hstop, hmid⟩ := hscan.up_to
  exact ⟨a, b, c, by simp, hstart, hstop, by rwa [hinit]⟩

/-- Tokens are not empty, lie within the text, and stand in order and apart. -/
theorem Scans.ordered (h : Scans pos cs ts) : ts.Pairwise (fun t u => t.span.stop ≤ u.span.start) ∧
      ∀ t ∈ ts, pos ≤ t.span.start ∧ t.span.start < t.span.stop ∧ t.span.stop ≤ pos + byteLength cs := by
  induction h with
  | nil => simp
  | @layout pos c cs ts hc h ih =>
    refine ⟨ih.1, fun t ht => ?_⟩
    obtain ⟨h₁, h₂, h₃⟩ := ih.2 t ht
    exact ⟨by omega, h₂, by simp only [byteLength]; omega⟩
  | @token pos c cs spelling rest t ts hc hcs hr h ih =>
    have hpos : 0 < byteLength (c :: spelling) := Text.byteLength_pos (by simp)
    have hlen : byteLength (c :: cs) = byteLength (c :: spelling) + byteLength rest := by
      rw [hcs, ← List.cons_append, Text.byteLength_append]
    refine ⟨List.pairwise_cons.2 ⟨fun u hu => (ih.2 u hu).1, ih.1⟩, fun u hu => ?_⟩
    rcases List.mem_cons.1 hu with rfl | hu
    · exact ⟨Nat.le_refl _, by simp only; omega, by simp only; omega⟩
    · obtain ⟨h₁, h₂, h₃⟩ := ih.2 u hu
      exact ⟨by omega, h₂, by omega⟩

theorem Scans.token_within (h : Scans pos cs ts) (hs : Placed.Covers ts s) (ht : t ∈ ts) :
    s.start ≤ t.span.start ∧ t.span.start < t.span.stop ∧ t.span.stop ≤ s.stop := by
  obtain ⟨a, b, c, -, -, hstop, hscan⟩ := Scans.piece (show Scans pos cs ([] ++ ts ++ []) by simpa using h) hs
  obtain ⟨hstart, hlt, hle⟩ := hscan.ordered.2 t ht
  exact ⟨hstart, hlt, by omega⟩

/-- What tokens in a row cover lies within what all tokens cover, and is not empty. -/
theorem Scans.within {mid : List Placed} {s' : Span} (h : Scans pos cs (ts₁ ++ mid ++ ts₂))
    (hs : Placed.Covers (ts₁ ++ mid ++ ts₂) s) (hm : Placed.Covers mid s') :
    s.start ≤ s'.start ∧ s'.start < s'.stop ∧ s'.stop ≤ s.stop := by
  obtain ⟨_, _, _, -, -, -, hscan⟩ := h.piece hm
  have hcovers := hm
  obtain ⟨first, last, hfirst, hlast, rfl⟩ := hm
  have hf := h.token_within hs (show first ∈ ts₁ ++ mid ++ ts₂ by simp [List.mem_of_head? hfirst])
  have hl := h.token_within hs (show last ∈ ts₁ ++ mid ++ ts₂ by simp [List.mem_of_getLast? hlast])
  have hlt := hscan.token_within hcovers (List.mem_of_head? hfirst)
  exact ⟨hf.1, Nat.lt_of_lt_of_le hlt.2.1 hlt.2.2, hl.2.2⟩

end Token

end Stencil
