import Stencil.Fault.Diagnostic
/-!
Regions of template text. Text stands for itself; between two markers stands an expression, a directive
tag after `#`, or a terminator after a slash.
-/
set_option autoImplicit false

namespace Stencil

/-- What opens and closes every region but plain text. -/
def marker : List Char := ['$', '$']

/-- A directive tag: its name up to the first blank, and its arguments without blanks around them. -/
structure Tag where
  name : String
  nameSpan : Span
  args : String
  argsSpan : Span
  span : Span
deriving DecidableEq, Repr, Inhabited

inductive Region where
  | text (span : Span)
  /-- An expression; its range is that between the markers. -/
  | expr (text : String) (span : Span)
  | opening (tag : Tag)
  | closing (name : String) (span : Span)
deriving DecidableEq, Repr, Inhabited

namespace Region

def stop : Region → Nat
  | text s => s.stop
  | expr _ s => s.stop + 2
  | opening t => t.span.stop
  | closing _ s => s.stop

def spanOf (pos : Nat) (cs : List Char) : Span := ⟨pos, pos + Text.byteLength cs⟩

def trimmed (cs : List Char) : List Char := Text.trim Text.isBlank cs

/-- The tag of a text that stands after the sigil; the tag opens at `pos`. -/
def tagOf (pos : Nat) (head : List Char) : Tag :=
  let name := head.takeWhile fun c => !Text.isBlank c
  let rest := head.dropWhile fun c => !Text.isBlank c
  let args := trimmed rest
  let start := pos + 3
  let stop := start + Text.byteLength head
  let argsStart := if args.isEmpty then stop
    else start + Text.byteLength name + Text.byteLength (rest.takeWhile Text.isBlank)
  ⟨String.ofList name, spanOf start name, String.ofList args, spanOf argsStart args, ⟨pos, stop + 2⟩⟩

def ofTag (pos : Nat) (head : List Char) : Except Diagnostic Region :=
  let tag := tagOf pos head
  if tag.name.isEmpty then .error (.of .directiveNameExpected tag.span) else .ok (.opening tag)

def ofTerminator (pos : Nat) (name : List Char) : Except Diagnostic Region :=
  .ok (.closing (String.ofList (trimmed name)) ⟨pos, pos + 5 + Text.byteLength name⟩)

/-- The region of an expression, given what stands between its markers. -/
def ofExpr (pos : Nat) (source : List Char) : Except Diagnostic Region :=
  if (trimmed source).isEmpty then .error (.of .emptyExpression ⟨pos, pos + 4 + Text.byteLength source⟩)
  else .ok (.expr (String.ofList source) (spanOf (pos + 2) source))

/-- Closes a region at the next marker; `whole` is the text from the start of the region, at `pos`, on. -/
def close (part : RegionPart) (pos : Nat) (whole : List Char) (make : List Char → Except Diagnostic Region)
    (cs : List Char) : Except Diagnostic (Region × List Char) :=
  match Text.cut? marker cs with
  | none => .error (.of (.unclosed part) (spanOf pos whole))
  | some (inside, rest) =>
    match make inside with
    | .ok r => .ok (r, rest)
    | .error d => .error d

def afterMarker (pos : Nat) (whole cs : List Char) : Except Diagnostic (Region × List Char) :=
  match cs with
  | '#' :: inner => close .tag pos whole (ofTag pos) inner
  | '/' :: inner => close .terminator pos whole (ofTerminator pos) inner
  | inner => close .expression pos whole (ofExpr pos) inner

/-- The first region of a text that starts at `pos`, and what follows it. -/
def next (pos : Nat) (cs : List Char) : Except Diagnostic (Option (Region × List Char)) :=
  if cs.isEmpty then .ok none
  else match Text.cut? marker cs with
    | none => .ok (some (.text (spanOf pos cs), []))
    | some ([], after) => (afterMarker pos cs after).map some
    | some (before, after) => .ok (some (.text (spanOf pos before), marker ++ after))

theorem close_shorter {part : RegionPart} {pos : Nat} {whole : List Char}
    {make : List Char → Except Diagnostic Region} {cs rest : List Char} {r : Region}
    (h : close part pos whole make cs = .ok (r, rest)) :
    rest.length < cs.length := by
  unfold close at h
  cases hc : Text.cut? marker cs with
  | none => simp [hc] at h
  | some p =>
    obtain ⟨inside, tail⟩ := p
    cases hm : make inside with
    | error d => simp [hc, hm] at h
    | ok r' =>
      simp only [hc, hm, Except.ok.injEq, Prod.mk.injEq] at h
      rw [Text.cut?_eq_some hc, ← h.2]
      simp [marker]; omega

theorem afterMarker_shorter {pos : Nat} {whole cs rest : List Char} {r : Region}
    (h : afterMarker pos whole cs = .ok (r, rest)) : rest.length < cs.length + 1 := by
  unfold afterMarker at h
  split at h <;> have := close_shorter h <;> grind

theorem next_shorter {pos : Nat} {cs rest : List Char} {r : Region}
    (h : next pos cs = .ok (some (r, rest))) : rest.length < cs.length := by
  unfold next at h
  split at h
  · cases h
  · next hne =>
    have hpos : 0 < cs.length := List.length_pos_iff.2 (by simpa using hne)
    split at h
    · cases h; simpa using hpos
    · next after hc =>
      have hcs := Text.cut?_eq_some hc
      cases ha : afterMarker pos cs after with
      | error d => simp [ha, Except.map] at h
      | ok p =>
        obtain ⟨r', rest'⟩ := p
        simp only [ha, Except.map, Except.ok.injEq, Option.some.injEq, Prod.mk.injEq] at h
        have := afterMarker_shorter ha
        rw [hcs]
        simp only [List.nil_append, List.length_append, marker, List.length_cons, List.length_nil]
        rw [← h.2]; omega
    · next before after hb hc =>
      have hcs := Text.cut?_eq_some hc
      cases h
      rw [hcs]
      have : 0 < before.length := List.length_pos_iff.2 (by
        intro h0; subst h0; exact hb rfl)
      simp only [List.length_append]; omega

/-- All regions of a text that starts at `pos`, up to the first fault; and where reading ended. -/
def scan (pos : Nat) (cs : List Char) : List Region × Option Diagnostic × Nat :=
  match _h : next pos cs with
  | .error d => ([], some d, pos)
  | .ok none => ([], none, pos)
  | .ok (some (r, rest)) =>
    let (rs, d, stop) := scan r.stop rest
    (r :: rs, d, stop)
termination_by cs.length
decreasing_by exact next_shorter _h

end Region

end Stencil
