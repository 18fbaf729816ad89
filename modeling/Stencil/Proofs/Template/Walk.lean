import Stencil.Proofs.Text.Cut
import Stencil.Template.Document
set_option autoImplicit false

namespace Stencil

namespace Region

variable {part : RegionPart} {make : List Char → Except Diagnostic Region} {r : Region} {pos : Nat}
  {whole cs rest more before after : List Char}

def start : Region → Nat
  | text s => s.start
  | expr _ s => s.start - 2
  | opening t => t.span.start
  | closing _ s => s.start

theorem byteLength_marker : Text.byteLength marker = 2 := by decide

theorem close_eq_ok_iff : close part pos whole make cs = .ok (r, rest) ↔
      ∃ inside, Text.cut? marker cs = some (inside, rest) ∧ make inside = .ok r := by
  unfold close
  cases Text.cut? marker cs with
  | none => simp
  | some p =>
    obtain ⟨inside, tail⟩ := p
    cases hm : make inside with
    | error d => simp [hm]
    | ok r' => simp [and_assoc, hm, and_comm]

/-- A region that closes within a front of a text closes the same way in the front, and the other way round. -/
theorem close_append_iff {whole' : List Char} : close part pos whole make (cs ++ more) = .ok (r, rest ++ more) ↔
      close part pos whole' make cs = .ok (r, rest) := by
  simp only [close_eq_ok_iff, Text.cut?_append_iff]

theorem afterMarker_expr {c : Char} (pos : Nat) (whole cs : List Char) (h : c ≠ '#') (h' : c ≠ '/') :
    afterMarker pos whole (c :: cs) = close .expression pos whole (ofExpr pos) (c :: cs) := by
  unfold afterMarker
  split
  · next heq => exact absurd (List.cons.inj heq).1 h
  · next heq => exact absurd (List.cons.inj heq).1 h'
  · rfl

theorem afterMarker_place (h : afterMarker pos whole cs = .ok (r, rest)) :
    ∃ inside, cs = inside ++ marker ++ rest ∧ r.start = pos ∧
      r.stop = pos + Text.byteLength (marker ++ inside ++ marker) := by
  unfold afterMarker at h
  split at h
  · obtain ⟨inside, hc, hm⟩ := close_eq_ok_iff.1 h
    refine ⟨'#' :: inside, by rw [Text.cut?_eq_some hc]; rfl, ?_⟩
    simp only [ofTag] at hm
    split at hm
    · cases hm
    · cases hm
      have h1 : ('#').utf8Size = 1 := by decide
      simp only [start, stop, tagOf, Text.byteLength_append, byteLength_marker, Text.byteLength, h1, true_and]
      omega
  · obtain ⟨inside, hc, hm⟩ := close_eq_ok_iff.1 h
    refine ⟨'/' :: inside, by rw [Text.cut?_eq_some hc]; rfl, ?_⟩
    cases hm
    have h1 : ('/').utf8Size = 1 := by decide
    simp only [start, stop, Text.byteLength_append, byteLength_marker, Text.byteLength, h1, true_and]
    omega
  · obtain ⟨inside, hc, hm⟩ := close_eq_ok_iff.1 h
    refine ⟨inside, Text.cut?_eq_some hc, ?_⟩
    unfold ofExpr at hm
    split at hm
    · cases hm
    · cases hm
      simp only [start, stop, spanOf, Text.byteLength_append, byteLength_marker]
      omega

theorem afterMarker_ne_text (pos : Nat) (whole cs rest : List Char) (span : Span) :
    afterMarker pos whole cs ≠ .ok (.text span, rest) := by
  intro h
  unfold afterMarker at h
  split at h
  · obtain ⟨inside, -, hm⟩ := close_eq_ok_iff.1 h
    simp only [ofTag] at hm
    split at hm <;> cases hm
  · obtain ⟨inside, -, hm⟩ := close_eq_ok_iff.1 h
    cases hm
  · obtain ⟨inside, -, hm⟩ := close_eq_ok_iff.1 h
    unfold ofExpr at hm
    split at hm <;> cases hm

theorem afterMarker_append_iff {whole' : List Char} :
    afterMarker pos whole (cs ++ more) = .ok (r, rest ++ more) ↔ afterMarker pos whole' cs = .ok (r, rest) := by
  cases cs with
  | nil =>
    -- a region is longer than nothing
    refine ⟨fun h => ?_, fun h => ?_⟩ <;> obtain ⟨inside, hcs, -⟩ := afterMarker_place h <;>
      have hlength := congrArg List.length hcs <;> simp [marker] at hlength
    omega
  | cons c cs =>
    by_cases hc : c = '#'
    · subst hc
      simpa only [List.cons_append, afterMarker] using close_append_iff
    · by_cases hs : c = '/'
      · subst hs
        simpa only [List.cons_append, afterMarker] using close_append_iff
      · rw [List.cons_append, afterMarker_expr _ _ _ hc hs, ← List.cons_append, afterMarker_expr _ _ _ hc hs]
        exact close_append_iff

/-- The three ways in which the first region of a text is read: the text holds no marker, or does not
start with one, or does. -/
theorem next_cases (h : next pos cs = .ok (some (r, rest))) :
    (cs ≠ [] ∧ Text.cut? marker cs = none ∧ r = .text (spanOf pos cs) ∧ rest = []) ∨
    (∃ before after, before ≠ [] ∧ Text.cut? marker cs = some (before, after) ∧
      r = .text (spanOf pos before) ∧ rest = marker ++ after) ∨
    (∃ after, Text.cut? marker cs = some ([], after) ∧ afterMarker pos cs after = .ok (r, rest)) := by
  unfold next at h
  split at h
  · cases h
  · next hne =>
    have hcs : cs ≠ [] := by simpa using hne
    split at h
    · next hc => cases h; exact .inl ⟨hcs, hc, rfl, rfl⟩
    · next after hc =>
      cases ha : afterMarker pos cs after with
      | error d => simp [ha, Except.map] at h
      | ok p =>
        simp only [ha, Except.map, Except.ok.injEq, Option.some.injEq] at h
        subst h
        exact .inr (.inr ⟨after, hc, ha⟩)
    · next before after hb hc =>
      cases h
      exact .inr (.inl ⟨before, after, fun h0 => hb (by rw [h0]), hc, rfl, rfl⟩)

theorem next_text (hne : cs ≠ []) (hc : Text.cut? marker cs = none) :
    next pos cs = .ok (some (.text (spanOf pos cs), [])) := by
  simp [next, hne, hc]

theorem next_textBefore (hb : before ≠ []) (hc : Text.cut? marker cs = some (before, after)) :
    next pos cs = .ok (some (.text (spanOf pos before), marker ++ after)) := by
  cases cs with
  | nil => cases hc
  | cons c cs =>
    cases before with
    | nil => exact absurd rfl hb
    | cons b bs => simp [next, hc]

theorem next_marked (hc : Text.cut? marker cs = some ([], after)) :
    next pos cs = (afterMarker pos cs after).map some := by
  cases cs with
  | nil => cases hc
  | cons c cs => simp [next, hc]

/-- A region covers the front of the text it is read from, which starts with the marker if the text does. -/
theorem next_place (h : next pos cs = .ok (some (r, rest))) :
    ∃ front, cs = front ++ rest ∧ front ≠ [] ∧ r.start = pos ∧ r.stop = pos + Text.byteLength front ∧
      (marker <+: cs → marker <+: front) := by
  rcases next_cases h with ⟨hne, -, rfl, rfl⟩ | ⟨before, after, hb, hc, rfl, rfl⟩ | ⟨after, hc, ha⟩
  · exact ⟨cs, by simp, hne, rfl, rfl, id⟩
  · have hcs := Text.cut?_eq_some hc
    refine ⟨before, by rw [hcs, List.append_assoc], hb, rfl, rfl, ?_⟩
    rintro ⟨tail, rfl⟩
    rw [Text.cut?_word] at hc
    cases hc
    exact absurd rfl hb
  · obtain ⟨inside, rfl, hstart, hstop⟩ := afterMarker_place ha
    refine ⟨marker ++ inside ++ marker, by rw [Text.cut?_eq_some hc]; simp, by simp [marker], hstart, hstop, ?_⟩
    exact fun _ => ⟨inside ++ marker, by simp⟩

/-- Where plain text may end: nothing is left, or what is left starts with the marker. -/
def Edge (left : List Char) : Prop := left = [] ∨ marker <+: left

/-- A region that ends within a front of a text is the first region of the front. Plain text must not end
there between the two characters of a marker. -/
theorem next_front
    (h : next pos (cs ++ more) = .ok (some (r, rest ++ more))) (he : ∀ span, r = .text span → Edge rest) :
    next pos cs = .ok (some (r, rest)) := by
  rcases next_cases h with ⟨hne, hc, rfl, hr⟩ | ⟨before, after, hb, hc, rfl, hr⟩ | ⟨after, hc, ha⟩
  · obtain ⟨rfl, rfl⟩ := List.append_eq_nil_iff.1 hr
    rw [List.append_nil] at hne hc ⊢
    exact next_text hne hc
  · have hcs : cs ++ more = (before ++ rest) ++ more := by
      rw [Text.cut?_eq_some hc, List.append_assoc, List.append_assoc, hr]
    obtain rfl := List.append_cancel_right hcs
    rcases he _ rfl with rfl | ⟨tail, rfl⟩
    · rw [List.append_nil]
      exact next_text hb (Text.cut?_before (by simp [marker]) hc)
    · rw [List.append_assoc] at hr
      obtain rfl := List.append_cancel_left hr
      exact next_textBefore hb (Text.cut?_front hc)
  · obtain ⟨inside, rfl, -⟩ := afterMarker_place ha
    have hcs : cs ++ more = (marker ++ (inside ++ marker ++ rest)) ++ more := by
      rw [Text.cut?_eq_some hc]; simp
    obtain rfl := List.append_cancel_right hcs
    rw [next_marked (Text.cut?_word marker _), afterMarker_append_iff.1 (by simpa using ha)]
    rfl

end Region

/-- A section of a body apart from the text it was found in: the control tag before it, where it starts,
and its text. -/
structure Stretch where
  control : Option Tag
  start : Nat
  chars : List Char
deriving DecidableEq, Repr, Inhabited

namespace Stretch

def stop (s : Stretch) : Nat := s.start + Text.byteLength s.chars

end Stretch

/-- A body apart from the text it was found in: its sections, and the first byte after it. -/
structure Extent where
  sections : List Stretch
  stop : Nat
deriving DecidableEq, Repr, Inhabited

def RawSection.stretch {n : Nat} (s : RawSection n) : Stretch := ⟨s.control, s.start, s.chars⟩

def FoundBody.extent {n : Nat} (b : FoundBody n) : Extent := ⟨b.sections.map RawSection.stretch, b.stop⟩

inductive Met where
  | text (chars : List Char)
  | expr (source : String) (span : Span)
  | directive (tag : Tag) (body : Option Extent)
deriving DecidableEq, Repr, Inhabited

variable {α : Type}

/-- A scan of a text that starts at a byte, up to another byte and what is left of the text there. It reads
regions, finds the body of every tag, and goes on after the body; it meets no fault, no terminator and no
tag that is not registered. -/
inductive Walk (reg : Registry α) : Nat → List Char → List Met → Nat → List Char → Prop where
  | done {pos : Nat} {cs : List Char} : Walk reg pos cs [] pos cs
  | text {pos stop : Nat} {cs rest left : List Char} {span : Span} {ms : List Met} :
    Region.next pos cs = .ok (some (.text span, rest)) → Walk reg span.stop rest ms stop left →
    Walk reg pos cs (.text (Text.before cs rest) :: ms) stop left
  | expr {pos stop : Nat} {cs rest left : List Char} {source : String} {span : Span} {ms : List Met} :
    Region.next pos cs = .ok (some (.expr source span, rest)) → Walk reg (span.stop + 2) rest ms stop left →
    Walk reg pos cs (.expr source span :: ms) stop left
  | alone {pos stop : Nat} {cs rest left : List Char} {tag : Tag} {ms : List Met} :
    Region.next pos cs = .ok (some (.opening tag, rest)) → FoundBody.find reg tag rest = .ok none →
    Walk reg tag.span.stop rest ms stop left → Walk reg pos cs (.directive tag none :: ms) stop left
  | body {pos stop : Nat} {cs rest left : List Char} {tag : Tag} {found : FoundBody rest.length}
      {ms : List Met} :
    Region.next pos cs = .ok (some (.opening tag, rest)) → FoundBody.find reg tag rest = .ok (some found) →
    Walk reg found.stop found.rest ms stop left →
    Walk reg pos cs (.directive tag (some found.extent) :: ms) stop left

end Stencil
