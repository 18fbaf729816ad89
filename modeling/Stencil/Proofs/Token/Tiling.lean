import Stencil.Proofs.Token.Scans
import Stencil.Proofs.Text.Boundary
set_option autoImplicit false

namespace Stencil.Token

variable {c : Char} {cs rest : List Char}

/-! ### All lexemes -/

open Text (byteLength)

structure Tiled (pos : Nat) (cs : List Char) (ls : List Lexeme) : Prop where
  /-- Every lexeme has its spelling in the text, which is the one that the rules give there. -/
  placed : ∀ l ∈ ls, ∃ pre spelling rest, cs = pre ++ spelling ++ rest ∧ spelling ≠ [] ∧
    l.span = ⟨pos + byteLength pre, pos + byteLength pre + byteLength spelling⟩ ∧
    Lexes (spelling ++ rest) l.token spelling
  apart : ls.Pairwise fun a b => a.span.stop ≤ b.span.start
  covered : ∀ pre c post, cs = pre ++ c :: post → isLayout c = true ∨
    ∃ l ∈ ls, l.span.start ≤ pos + byteLength pre ∧ pos + byteLength pre + c.utf8Size ≤ l.span.stop

variable {pos : Nat} {ls : List Lexeme}

theorem Tiled.layout (hc : isLayout c = true) (h : Tiled (pos + c.utf8Size) cs ls) : Tiled pos (c :: cs) ls where
  placed l hl := by
    obtain ⟨pre, spelling, rest, rfl, hne, hspan, hlex⟩ := h.placed l hl
    exact ⟨c :: pre, spelling, rest, rfl, hne, by simp [hspan, byteLength, Nat.add_assoc], hlex⟩
  apart := h.apart
  covered pre d post hcs := by
    cases pre with
    | nil =>
      obtain ⟨rfl, -⟩ := List.cons.inj hcs
      exact .inl hc
    | cons p pre =>
      obtain ⟨rfl, rfl⟩ := List.cons.inj hcs
      simpa only [byteLength, Nat.add_assoc] using h.covered pre d post rfl

end Stencil.Token
