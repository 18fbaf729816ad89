import Stencil.Proofs.Template.Walk
set_option autoImplicit false

namespace Stencil

namespace Text

def Blanks (cs : List Char) : Prop := ∀ c ∈ cs, isBlank c = true

def Bare (cs : List Char) : Prop :=
  (∀ c, cs.head? = some c → isBlank c = false) ∧ (∀ c, cs.getLast? = some c → isBlank c = false)

theorem eq_false_of_head?_dropWhile {p : Char → Bool} {cs : List Char} {c : Char}
    (h : (cs.dropWhile p).head? = some c) : p c = false := by
  have := List.head?_dropWhile_not p cs
  rwa [h] at this

theorem trimEnd_append (p : Char → Bool) (cs : List Char) : trimEnd p cs ++ (cs.reverse.takeWhile p).reverse = cs := by
  rw [trimEnd, ← List.reverse_append, List.takeWhile_append_dropWhile, List.reverse_reverse]

/-- What trimming takes away: the blanks before the text, and blanks after it. -/
theorem trim_append (cs : List Char) : ∃ tail, cs = cs.takeWhile isBlank ++ trim isBlank cs ++ tail ∧ Blanks tail := by
  refine ⟨((cs.dropWhile isBlank).reverse.takeWhile isBlank).reverse, ?_, ?_⟩
  · rw [List.append_assoc, trim, trimStart, trimEnd_append, List.takeWhile_append_dropWhile]
  · intro c hc
    exact List.all_eq_true.1 List.all_takeWhile c (List.mem_reverse.1 hc)

theorem blanks_takeWhile (cs : List Char) : Blanks (cs.takeWhile isBlank) :=
  List.all_eq_true.1 List.all_takeWhile

theorem bare_trim (cs : List Char) : Bare (trim isBlank cs) := by
  constructor
  · intro c hc
    have hhead : (cs.dropWhile isBlank).head? = some c := by
      rw [← trimEnd_append isBlank (cs.dropWhile isBlank), List.head?_append]
      exact Option.or_eq_some_iff.2 (.inl hc)
    exact eq_false_of_head?_dropWhile hhead
  · intro c hc
    rw [trim, trimEnd, List.getLast?_reverse] at hc
    exact eq_false_of_head?_dropWhile hc

end Text

namespace Region

open Text (slice? Blanks Bare)

def IsText : Region → Prop
  | text _ => True
  | _ => False

/-- What a region says stands in the source at the place the region gives. -/
def Faithful (source : List Char) : Region → Prop
  | text span => ∃ cs, slice? source span.start span.stop = some cs ∧ Text.occurs marker cs = false
  | expr code span =>
    slice? source span.start span.stop = some code.toList ∧ 2 ≤ span.start ∧
    slice? source (span.start - 2) (span.stop + 2) = some (marker ++ code.toList ++ marker)
  | opening tag =>
    slice? source tag.nameSpan.start tag.nameSpan.stop = some tag.name.toList ∧
    slice? source tag.argsSpan.start tag.argsSpan.stop = some tag.args.toList ∧
    Bare tag.args.toList ∧ (∀ c ∈ tag.name.toList, Text.isBlank c = false) ∧
    ∃ gap tail, Blanks gap ∧ Blanks tail ∧ slice? source tag.span.start tag.span.stop =
      some (marker ++ ['#'] ++ tag.name.toList ++ gap ++ tag.args.toList ++ tail ++ marker)
  | closing name span =>
    Bare name.toList ∧ ∃ gap tail, Blanks gap ∧ Blanks tail ∧
      slice? source span.start span.stop = some (marker ++ ['/'] ++ gap ++ name.toList ++ tail ++ marker)

variable {pos stop : Nat} {cs rest source whole : List Char} {r : Region} {d : Diagnostic}

theorem afterMarker_cases (h : afterMarker pos whole cs = .ok (r, rest)) :
    (∃ head, cs = ['#'] ++ head ++ marker ++ rest ∧ r = .opening (tagOf pos head)) ∨
    (∃ name, cs = ['/'] ++ name ++ marker ++ rest ∧
      r = .closing (String.ofList (trimmed name)) ⟨pos, pos + 5 + Text.byteLength name⟩) ∨
    (∃ code, cs = code ++ marker ++ rest ∧ r = .expr (String.ofList code) (spanOf (pos + 2) code)) := by
  unfold afterMarker at h
  split at h
  · obtain ⟨head, hc, hm⟩ := close_eq_ok_iff.1 h
    simp only [ofTag] at hm
    split at hm
    · cases hm
    · cases hm
      exact .inl ⟨head, by rw [Text.cut?_eq_some hc]; rfl, rfl⟩
  · obtain ⟨name, hc, hm⟩ := close_eq_ok_iff.1 h
    cases hm
    exact .inr (.inl ⟨name, by rw [Text.cut?_eq_some hc]; rfl, rfl⟩)
  · obtain ⟨code, hc, hm⟩ := close_eq_ok_iff.1 h
    unfold ofExpr at hm
    split at hm
    · cases hm
    · cases hm
      exact .inr (.inr ⟨code, Text.cut?_eq_some hc, rfl⟩)

/-- A tag takes its text apart: a name, blanks, the arguments, blanks. Where there are no arguments their
place is the end of the text. -/
theorem tagOf_pieces (pos : Nat) (head : List Char) : ∃ gap tail, Blanks gap ∧ Blanks tail ∧
      head = (tagOf pos head).name.toList ++ gap ++ (tagOf pos head).args.toList ++ tail ∧
      (tagOf pos head).argsSpan = spanOf (pos + 3 + Text.byteLength ((tagOf pos head).name.toList ++ gap))
        (tagOf pos head).args.toList := by
  obtain ⟨tail, hrest, htail⟩ := Text.trim_append (head.dropWhile fun c => !Text.isBlank c)
  have hhead : head = head.takeWhile (fun c => !Text.isBlank c) ++ head.dropWhile (fun c => !Text.isBlank c) :=
    List.takeWhile_append_dropWhile.symm
  have hlead := Text.blanks_takeWhile (head.dropWhile fun c => !Text.isBlank c)
  by_cases hargs : trimmed (head.dropWhile fun c => !Text.isBlank c) = []
  · refine ⟨head.dropWhile fun c => !Text.isBlank c, [], ?_, by simp [Blanks], ?_, ?_⟩
    · unfold trimmed at hargs
      rw [hargs, List.append_nil] at hrest
      intro c hc
      rw [hrest] at hc
      exact (List.mem_append.1 hc).elim (hlead c) (htail c)
    · simp [tagOf, hargs]
    · simp [tagOf, hargs, spanOf]
  · refine ⟨(head.dropWhile fun c => !Text.isBlank c).takeWhile Text.isBlank, tail, hlead, htail, ?_, ?_⟩
    · simp only [tagOf, String.toList_ofList, trimmed]
      rw [List.append_assoc, List.append_assoc, ← List.append_assoc _ _ tail, ← hrest]
      exact hhead
    · simp only [tagOf, String.toList_ofList, List.isEmpty_iff, hargs, if_false, Text.byteLength_append]
      rw [Nat.add_assoc (pos + 3)]

theorem bare_args (pos : Nat) (head : List Char) : Bare (tagOf pos head).args.toList := by
  simp only [tagOf, String.toList_ofList]
  exact Text.bare_trim _

theorem not_blank_of_mem_name {head : List Char} {c : Char}
    (h : c ∈ (tagOf pos head).name.toList) : Text.isBlank c = false := by
  simp only [tagOf, String.toList_ofList] at h
  simpa using List.all_eq_true.1 List.all_takeWhile c h

theorem faithful_opening {head : List Char}
    (h : slice? source pos stop = some (marker ++ (['#'] ++ head ++ marker ++ rest))) :
    (opening (tagOf pos head)).Faithful source := by
  obtain ⟨gap, tail, hgap, htail, hhead, hspan⟩ := tagOf_pieces pos head
  have hsigil : Text.byteLength (marker ++ ['#']) = 3 := by decide
  have hfront : ∀ more, head ++ more =
      (tagOf pos head).name.toList ++ (gap ++ ((tagOf pos head).args.toList ++ (tail ++ more))) := by
    intro more
    have := congrArg (· ++ more) hhead
    simpa using this
  refine ⟨?_, ?_, bare_args pos head, fun c => not_blank_of_mem_name, gap, tail, hgap, htail, ?_⟩
  · have hname : slice? source pos stop = some (marker ++ ['#'] ++ (tagOf pos head).name.toList ++
        (gap ++ (tagOf pos head).args.toList ++ tail ++ marker ++ rest)) := by
      rw [h]; simp [hfront]
    have hpiece := Text.slice?_piece hname
    rw [hsigil] at hpiece
    simpa only [tagOf, spanOf, String.toList_ofList] using hpiece
  · have hargs : slice? source pos stop = some (marker ++ ['#'] ++ ((tagOf pos head).name.toList ++ gap) ++
        (tagOf pos head).args.toList ++ (tail ++ marker ++ rest)) := by
      rw [h]; simp [hfront]
    have hpiece := Text.slice?_piece hargs
    rw [Text.byteLength_append, hsigil] at hpiece
    rw [hspan]
    simpa only [spanOf, Nat.add_assoc] using hpiece
  · have hall : slice? source pos stop = some ([] ++ (marker ++ ['#'] ++ head ++ marker) ++ rest) := by
      rw [h]; simp
    have hpiece := Text.slice?_piece hall
    have hlength : Text.byteLength (marker ++ ['#'] ++ head ++ marker) = 3 + Text.byteLength head + 2 := by
      rw [Text.byteLength_append, Text.byteLength_append, hsigil, byteLength_marker]
    rw [hlength] at hpiece
    simpa [Text.byteLength, tagOf, ← Nat.add_assoc, hfront] using hpiece

theorem faithful_closing {name : List Char}
    (h : slice? source pos stop = some (marker ++ (['/'] ++ name ++ marker ++ rest))) :
    (closing (String.ofList (trimmed name)) ⟨pos, pos + 5 + Text.byteLength name⟩).Faithful source := by
  obtain ⟨tail, hname, htail⟩ := Text.trim_append name
  have hends : Text.byteLength (marker ++ ['/'] ++ name ++ marker) = 5 + Text.byteLength name := by
    have hsigil : Text.byteLength (marker ++ ['/']) = 3 := by decide
    rw [Text.byteLength_append, Text.byteLength_append, hsigil, byteLength_marker]
    omega
  have hall : slice? source pos stop = some ([] ++ (marker ++ ['/'] ++ name ++ marker) ++ rest) := by
    rw [h]; simp
  have hpiece := Text.slice?_piece hall
  rw [hends] at hpiece
  simp only [Faithful, String.toList_ofList, trimmed]
  refine ⟨Text.bare_trim name, name.takeWhile Text.isBlank, tail, Text.blanks_takeWhile name, htail, ?_⟩
  simpa [Text.byteLength, ← Nat.add_assoc, ← hname] using hpiece

theorem faithful_expr {code : List Char} (h : slice? source pos stop = some (marker ++ (code ++ marker ++ rest))) :
    (expr (String.ofList code) (spanOf (pos + 2) code)).Faithful source := by
  have hcode : slice? source pos stop = some (marker ++ code ++ (marker ++ rest)) := by rw [h]; simp
  have hall : slice? source pos stop = some ([] ++ (marker ++ code ++ marker) ++ rest) := by rw [h]; simp
  have hinner := Text.slice?_piece hcode
  have houter := Text.slice?_piece hall
  simp only [Text.byteLength_append, byteLength_marker, Text.byteLength, Nat.add_zero] at hinner houter
  simp only [Faithful, String.toList_ofList, spanOf]
  refine ⟨hinner, by omega, ?_⟩
  rw [← houter]
  congr 1
  omega

/-- What one call of the scanner reads: a region at the place it stands at, that is not empty and leaves
the rest of the range. Plain text ends at a marker or with the range. -/
theorem next_reads (hs : slice? source pos stop = some cs) (h : next pos cs = .ok (some (r, rest))) :
    r.start = pos ∧ pos < r.stop ∧ slice? source r.stop stop = some rest ∧ r.Faithful source ∧
      (r.IsText → Edge rest) := by
  obtain ⟨front, hcs, hne, hstart, hstop, -⟩ := next_place h
  have hrest : slice? source r.stop stop = some rest := by
    obtain ⟨pre, post, rfl, rfl, rfl⟩ := Text.slice?_eq_some_iff.1 hs
    exact Text.slice?_eq_some_iff.2
      ⟨pre ++ front, post, by simp [hcs], by simp [hstop], by simp [hcs, hstop, Nat.add_assoc]⟩
  refine ⟨hstart, by have := Text.byteLength_pos hne; omega, hrest, ?_⟩
  rcases next_cases h with ⟨-, hc, rfl, rfl⟩ | ⟨before, after, -, hc, rfl, rfl⟩ | ⟨after, hc, ha⟩
  · have hpiece := Text.slice?_piece (a := []) (b := cs) (c := []) (by simpa using hs)
    exact ⟨⟨cs, by simpa [spanOf, Text.byteLength] using hpiece, by simp [Text.occurs, hc]⟩, fun _ => .inl rfl⟩
  · have hall : slice? source pos stop = some ([] ++ before ++ (marker ++ after)) := by
      rw [hs, Text.cut?_eq_some hc]; simp
    have hpiece := Text.slice?_piece hall
    have hnone := Text.cut?_before (by simp [marker]) hc
    exact ⟨⟨before, by simpa [spanOf, Text.byteLength] using hpiece, by simp [Text.occurs, hnone]⟩,
      fun _ => .inr (List.prefix_append _ _)⟩
  · have hcs' := Text.cut?_eq_some hc
    rw [List.nil_append] at hcs'
    rw [hcs'] at hs
    rcases afterMarker_cases ha with ⟨head, rfl, rfl⟩ | ⟨name, rfl, rfl⟩ | ⟨code, rfl, rfl⟩
    · exact ⟨faithful_opening hs, False.elim⟩
    · exact ⟨faithful_closing hs, False.elim⟩
    · exact ⟨faithful_expr hs, False.elim⟩

end Region

end Stencil
