import Stencil.Pattern.CharSet
set_option autoImplicit false

namespace Stencil.Pattern

structure Flags where
  ignoreCase : Bool
  multiLine : Bool
  dotAll : Bool
  swapGreed : Bool
  wide : Bool
  pairs : Bool
  verbose : Bool
deriving DecidableEq, Repr, Inhabited

namespace Flags

def default : Flags := ⟨false, false, false, false, true, false, false⟩

def put? (f : Flags) (letter : Char) (on : Bool) : Option Flags :=
  match letter with
  | 'i' => some { f with ignoreCase := on }
  | 'm' => some { f with multiLine := on }
  | 's' => some { f with dotAll := on }
  | 'U' => some { f with swapGreed := on }
  | 'u' => some { f with wide := on }
  | 'R' => some { f with pairs := on }
  | 'x' => some { f with verbose := on }
  | _ => none

/-- A set that may be used under the flags: narrow patterns may not match half a character. -/
def usable? (f : Flags) (s : CharSet) : Option CharSet := if f.wide || s.isNarrow then some s else none

def foldSet (f : Flags) (s : CharSet) : CharSet := if f.ignoreCase then s.folded f.wide else s

/-- Closes a set under case and then complements it, as the flags and a negation ask. -/
def finishSet? (f : Flags) (negated : Bool) (s : CharSet) : Option CharSet :=
  f.usable? (if negated then (f.foldSet s).compl else f.foldSet s)

end Flags

def dropLayout (inComment : Bool) : List Char → List Char
  | [] => []
  | c :: cs =>
    if inComment then dropLayout (c ≠ '\n') cs
    else if Text.isBlank c then dropLayout false cs
    else if c = '#' then dropLayout true cs
    else c :: cs

theorem length_dropLayout_le (inComment : Bool) (cs : List Char) :
    (dropLayout inComment cs).length ≤ cs.length := by
  induction cs generalizing inComment with
  | nil => simp [dropLayout]
  | cons c cs ih =>
    simp only [dropLayout]
    split
    · exact Nat.le_succ_of_le (ih _)
    · split
      · exact Nat.le_succ_of_le (ih _)
      · split
        · exact Nat.le_succ_of_le (ih _)
        · exact Nat.le_refl _

/-- Skips what stands for nothing: blanks and comments where the pattern is verbose. -/
def skip (f : Flags) (cs : List Char) : List Char := if f.verbose then dropLayout false cs else cs

theorem length_skip_le (f : Flags) (cs : List Char) : (skip f cs).length ≤ cs.length := by
  unfold skip
  split
  · exact length_dropLayout_le false cs
  · exact Nat.le_refl _

/-- Reads the characters that satisfy `p`; layout may follow each of them. -/
def takeSpaced (f : Flags) (p : Char → Bool) (cs : List Char) : List Char × List Char :=
  match cs with
  | [] => ([], [])
  | c :: rest =>
    if p c then
      let (ds, rest) := takeSpaced f p (skip f rest)
      (c :: ds, rest)
    else ([], c :: rest)
termination_by cs.length
decreasing_by
  have := length_skip_le f rest
  simp only [List.length_cons]
  omega

end Stencil.Pattern
