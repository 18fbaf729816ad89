import Stencil.Source
import Stencil.Proofs.Text.Cut
set_option autoImplicit false

namespace Stencil

namespace Text

/-- A byte position that stands between two characters of a text, or at one of its ends. -/
def Boundary (src : List Char) (n : Nat) : Prop := ∃ pre post, src = pre ++ post ∧ byteLength pre = n

theorem Boundary.le {src : List Char} {n : Nat} (h : Boundary src n) : n ≤ byteLength src := by
  obtain ⟨pre, post, rfl, rfl⟩ := h
  simp

theorem exists_append_of_byteLength_le {a b x y : List Char} (h : a ++ x = b ++ y) (hle : byteLength a ≤ byteLength b) :
    ∃ c, b = a ++ c ∧ x = c ++ y := by
  rcases List.append_eq_append_iff.1 h with hb | ⟨c, rfl, rfl⟩
  · exact hb
  · have hempty : c = [] := Decidable.byContradiction fun hne => by
      have hpos := byteLength_pos hne
      rw [byteLength_append] at hle
      omega
    exact ⟨[], by simp [hempty]⟩

theorem slice?_after {src a b : List Char} {start stop : Nat} (h : slice? src start stop = some (a ++ b)) :
    slice? src (start + byteLength a) stop = some b := by
  obtain ⟨pre, post, rfl, rfl, rfl⟩ := slice?_eq_some_iff.1 h
  exact slice?_eq_some_iff.2 ⟨pre ++ a, post, by simp, by simp, by simp; omega⟩

end Text

open Text (Boundary slice?)

namespace Span

structure Fits (src : List Char) (s : Span) : Prop where
  ordered : s.start ≤ s.stop
  start : Boundary src s.start
  stop : Boundary src s.stop

variable {src : List Char} {s t : Span}

theorem fits_of_slice? {start stop : Nat} {cs : List Char} (h : slice? src start stop = some cs) :
    Fits src ⟨start, stop⟩ := by
  obtain ⟨pre, post, rfl, rfl, rfl⟩ := Text.slice?_eq_some_iff.1 h
  exact ⟨Nat.le_add_right _ _, ⟨pre, cs ++ post, by simp, rfl⟩, ⟨pre ++ cs, post, rfl, by simp⟩⟩

theorem fits_point {n : Nat} (h : Boundary src n) : Fits src (.point n) := ⟨Nat.le_refl n, h, h⟩

theorem Fits.merge (hs : s.Fits src) (ht : t.Fits src) : (s.merge t).Fits src := by
  refine ⟨?_, ?_, ?_⟩
  · have := hs.ordered
    simp only [Span.merge]
    omega
  · rcases Nat.le_total s.start t.start with h | h
    · simpa only [Span.merge, Nat.min_eq_left h] using hs.start
    · simpa only [Span.merge, Nat.min_eq_right h] using ht.start
  · rcases Nat.le_total s.stop t.stop with h | h
    · simpa only [Span.merge, Nat.max_eq_right h] using ht.stop
    · simpa only [Span.merge, Nat.max_eq_left h] using hs.stop

end Span

end Stencil
