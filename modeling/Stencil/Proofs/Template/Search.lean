import Stencil.Proofs.Template.Sections
set_option autoImplicit false

namespace Stencil

variable {α : Type} {reg : Registry α} {tag inner : Tag} {words : List String} {pos p limit : Nat}
  {cs rest left src : List Char} {e : Diagnostic}

theorem Walk.trans {ms ms' : List Met} {q : Nat} {mid : List Char} (w : Walk reg pos cs ms p mid)
    (w' : Walk reg p mid ms' q left) : Walk reg pos cs (ms ++ ms') q left := by
  induction w with
  | done => exact w'
  | text h _ ih => exact .text h (ih w')
  | expr h _ ih => exact .expr h (ih w')
  | alone h hf _ ih => exact .alone h hf (ih w')
  | body h hf _ ih => exact .body h hf (ih w')

namespace Follows

theorem length_le {stop : Nat} (h : Follows pos cs stop left) : left.length ≤ cs.length := by
  obtain ⟨front, rfl, -⟩ := h
  simp

theorem reads {stop : Nat} (h : Follows pos cs stop left) (hr : Text.Reads src limit pos cs) :
    Text.Reads src limit stop left := by
  obtain ⟨front, rfl, rfl⟩ := h
  exact hr.after

end Follows

namespace FoundBody

/-- Where the scanner of a search comes to: it walks through each section, and passes the control tag after it. -/
inductive Visits (reg : Registry α) (owner : Tag) (words : List String) :
    Nat → List Char → Nat → List Char → Prop where
  | walk {pos p : Nat} {cs left : List Char} {ms : List Met} :
    Walk reg pos cs ms p left → Visits reg owner words pos cs p left
  | control {pos p q : Nat} {cs mid rest left : List Char} {ms : List Met} {region : Region} {t : Tag} :
    Walk reg pos cs ms p mid → Region.next p mid = .ok (some (region, rest)) → region.Ends reg owner words (some t) →
    Visits reg owner words t.span.stop rest q left → Visits reg owner words pos cs q left

namespace Visits

theorem follows (v : Visits reg tag words pos cs p left) : Follows pos cs p left := by
  induction v with
  | walk w => exact w.follows
  | control w hn he _ ih => exact (w.follows.trans (he.stop_eq ▸ .of_next hn)).trans ih

end Visits

/-- The search for the nested body of a tag with its control words brings its scanner to a position. -/
def Reaches (reg : Registry α) (tag : Tag) (cs : List Char) (words : List String) (p : Nat) (left : List Char) : Prop :=
  (∃ d, reg.get? tag.name = some d ∧ d.body tag.args = .nested ∧ d.words = words) ∧
    Visits reg tag words tag.span.stop cs p left

/-- A search makes another one, for the body of a registered directive whose tag its scanner comes to. -/
def Searches (reg : Registry α) (s s' : Tag × List Char) : Prop :=
  ∃ words p left, Reaches reg s.1 s.2 words p left ∧ Region.next p left = .ok (some (.opening s'.1, s'.2)) ∧
    reg.contains s'.1.name = true

/-- A search meets the tag of another one behind the place where it started. -/
theorem Searches.follows (h : Searches reg (tag, cs) (inner, rest)) :
    Follows tag.span.stop cs inner.span.stop rest ∧ rest.length < cs.length := by
  obtain ⟨words, p, left, ⟨-, v⟩, hn, -⟩ := h
  refine ⟨v.follows.trans (.of_next hn), ?_⟩
  exact Nat.lt_of_lt_of_le (Region.next_shorter hn) v.follows.length_le

end FoundBody

end Stencil
