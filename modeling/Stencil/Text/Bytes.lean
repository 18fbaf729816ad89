/-!
Positions in a text are counted in UTF-8 bytes. A text is a list of characters, and these functions
measure it and cut it at byte positions.
-/
set_option autoImplicit false

namespace Stencil.Text

def byteLength : List Char → Nat
  | [] => 0
  | c :: cs => c.utf8Size + byteLength cs

@[simp] theorem byteLength_append (a b : List Char) :
    byteLength (a ++ b) = byteLength a + byteLength b := by
  induction a with
  | nil => simp [byteLength]
  | cons c cs ih => simp [byteLength, ih]; omega

/-- The text before and after byte `n`, when `n` stands between two characters. -/
def splitBytes? : Nat → List Char → Option (List Char × List Char)
  | 0, cs => some ([], cs)
  | _ + 1, [] => none
  | n + 1, c :: cs =>
    if c.utf8Size ≤ n + 1 then
      (splitBytes? (n + 1 - c.utf8Size) cs).map fun (a, b) => (c :: a, b)
    else none

theorem splitBytes?_eq_some {n : Nat} {cs a b : List Char} (h : splitBytes? n cs = some (a, b)) :
    cs = a ++ b ∧ byteLength a = n := by
  fun_induction splitBytes? n cs generalizing a b with
  | case1 => simp_all [byteLength]
  | case2 => simp at h
  | case3 n c cs hc ih =>
    obtain ⟨⟨a', b'⟩, hs, hab⟩ := Option.map_eq_some_iff.1 h
    obtain ⟨rfl, rfl⟩ := Prod.mk.inj hab
    obtain ⟨rfl, hl⟩ := ih hs
    exact ⟨rfl, by simp only [byteLength, hl]; omega⟩
  | case4 => simp at h

/-- The text between two byte positions, when both stand between characters. -/
def slice? (cs : List Char) (start stop : Nat) : Option (List Char) :=
  if start ≤ stop then do
    let (upTo, _) ← splitBytes? stop cs
    let (_, middle) ← splitBytes? start upTo
    return middle
  else none

/-- The text between two byte positions, clamped to the text; nothing when a position cuts a character. -/
def slice (cs : List Char) (start stop : Nat) : List Char :=
  let stop := min stop (byteLength cs)
  (slice? cs (min start stop) stop).getD []

/-- What stands in `whole` before its tail `rest`. -/
def before (whole rest : List Char) : List Char := whole.take (whole.length - rest.length)

@[simp] theorem before_append (a b : List Char) : before (a ++ b) b = a := by
  simp [before]

end Stencil.Text
