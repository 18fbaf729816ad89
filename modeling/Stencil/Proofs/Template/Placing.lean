import Stencil.Proofs.Template.Sections
import Stencil.Proofs.Template.Tiling
import Stencil.Proofs.Typing.Faults
set_option autoImplicit false

namespace Stencil

open Text (slice? byteLength)
open Stencil.Span (Fits)
open Diagnostic (OrdinaryAt)

structure Tag.In (src : List Char) (tag : Tag) : Prop where
  span : tag.span.Fits src
  name : tag.nameSpan.Fits src
  args : slice? src tag.argsSpan.start tag.argsSpan.stop = some tag.args.toList

theorem Follows.slice {src cs left : List Char} {pos stop limit : Nat} (h : Follows pos cs stop left)
    (hs : slice? src pos limit = some cs) : slice? src stop limit = some left := by
  obtain ⟨front, rfl, rfl⟩ := h
  exact Text.slice?_after hs

namespace Region

variable {src cs rest : List Char} {pos limit : Nat}

theorem Faithful.tag {tag : Tag} (h : (opening tag).Faithful src) : tag.In src := by
  obtain ⟨hname, hargs, -, -, _, _, -, -, hspan⟩ := h
  exact ⟨Span.fits_of_slice? hspan, Span.fits_of_slice? hname, hargs⟩

theorem Faithful.closing {name : String} {span : Span} (h : (closing name span).Faithful src) : span.Fits src := by
  obtain ⟨-, _, _, -, -, hspan⟩ := h
  exact Span.fits_of_slice? hspan

theorem fits_close {part : RegionPart} {make : List Char → Except Diagnostic Region} {inner : List Char}
    (hs : slice? src pos limit = some cs)
    (hmake : ∀ inside rest, inner = inside ++ marker ++ rest → FailsOnly (OrdinaryAt (·.Fits src)) (make inside)) :
    FailsOnly (OrdinaryAt (·.Fits src)) (close part pos cs make inner) := by
  unfold close
  split
  · have := Span.fits_of_slice? hs
    obtain ⟨_, _, -, -, rfl⟩ := Text.slice?_eq_some_iff.1 hs
    exact .refusedAt rfl this
  · next inside rest hc =>
    have hinside := hmake inside rest (Text.cut?_eq_some hc)
    split
    · exact .ok
    · next d hd => exact .error (hinside d hd)

/-- A region that is not as it should be stands in the source up to its closing marker, or to the end. -/
theorem fits_afterMarker {after : List Char} (hs : slice? src pos limit = some (marker ++ after)) :
    FailsOnly (OrdinaryAt (·.Fits src)) (afterMarker pos (marker ++ after) after) := by
  unfold afterMarker
  split
  · next inner =>
    refine fits_close hs fun head rest hin => ?_
    have hopen : slice? src pos limit = some (marker ++ (['#'] ++ head ++ marker ++ rest)) := by
      rw [hs, hin]; simp
    have htag := (faithful_opening hopen).tag
    unfold ofTag
    dsimp only
    split
    · exact .refusedAt rfl htag.span
    · exact .ok
  · exact fits_close hs fun _ _ _ => .ok
  · refine fits_close hs fun code rest hin => ?_
    rw [hin] at hs
    obtain ⟨-, -, hspan⟩ := faithful_expr hs
    unfold ofExpr
    split
    · have := Span.fits_of_slice? hspan
      rw [show (spanOf (pos + 2) code).stop + 2 = pos + 4 + byteLength code by simp only [spanOf]; omega] at this
      exact .refusedAt rfl this
    · exact .ok

theorem fits_next (hs : slice? src pos limit = some cs) : FailsOnly (OrdinaryAt (·.Fits src)) (next pos cs) := by
  unfold next
  split
  · exact .ok
  · split
    · exact .ok
    · next after hc =>
      obtain rfl := Text.cut?_eq_some hc
      exact (fits_afterMarker hs).map
    · exact .ok

end Region

variable {α : Type} {reg : Registry α} {src : List Char}

theorem Registry.ordinary_unknown (reg : Registry α) (tag : Tag) : (reg.unknown tag).Ordinary := by
  unfold unknown
  split <;> exact Diagnostic.ordinary_of rfl

theorem Registry.fits_unknown (reg : Registry α) {tag : Tag} (h : tag.In src) : (reg.unknown tag).span.Fits src := by
  unfold unknown
  split
  · exact h.span
  · exact h.name

/-! ### Sections -/

/-- A section that stands in a source where it says, after a control tag that does too. -/
structure Stretch.In (src : List Char) (s : Stretch) : Prop where
  control : ∀ t ∈ s.control, t.In src
  chars : slice? src s.start s.stop = some s.chars

theorem Walk.section_in {pos stop limit : Nat} {cs start : List Char} {ms : List Met} {control : Option Tag}
    (w : Walk reg pos cs ms stop start) (hs : slice? src pos limit = some cs) (hc : ∀ t ∈ control, t.In src) :
    Stretch.In src ⟨control, pos, Text.before cs start⟩ := by
  obtain ⟨front, rfl, rfl⟩ := w.follows
  refine ⟨hc, ?_⟩
  have hpiece := Text.slice?_piece (a := []) (b := front) hs
  simpa [Stretch.stop, byteLength] using hpiece

theorem Chain.sections_in {owner : Tag} {words : List String} {control : Option Tag} {pos stop limit : Nat}
    {cs left : List Char} {ss : List Stretch} (c : Chain reg owner words control pos cs ss stop left)
    (hs : slice? src pos limit = some cs) (hc : ∀ t ∈ control, t.In src) : ∀ s ∈ ss, s.In src := by
  induction c with
  | last w hn he => exact List.forall_mem_singleton.2 (w.section_in hs hc)
  | more w hn he _ ih =>
    obtain ⟨-, -, hrest, hf, -⟩ := Region.next_reads (w.follows.slice hs) hn
    rw [he.stop_eq] at hrest
    refine List.forall_mem_cons.2 ⟨w.section_in hs hc, ih hrest ?_⟩
    rintro _ ⟨⟩
    cases he
    exact hf.tag

theorem FoundBody.sections_in {tag : Tag} {cs : List Char} {limit : Nat} {found : FoundBody cs.length}
    (hs : slice? src tag.span.stop limit = some cs) (h : find reg tag cs = .ok (some found)) :
    ∀ s ∈ found.extent.sections, s.In src := by
  obtain ⟨d, -, ⟨-, text, hc, -, hx⟩ | ⟨-, hc⟩⟩ := find_iff.1 ⟨found, h, rfl⟩
  · rw [hx]
    refine List.forall_mem_singleton.2 ⟨fun _ ht => absurd ht (Option.not_mem_none _), ?_⟩
    rw [Text.cut?_eq_some hc, List.append_assoc] at hs
    have hpiece := Text.slice?_piece (a := []) (b := text) hs
    simpa [Stretch.stop, byteLength] using hpiece
  · exact hc.sections_in hs fun _ ht => absurd ht (Option.not_mem_none _)

/-! ### Faults of bodies -/

namespace FoundBody

theorem fits_verbatim {tag : Tag} {cs : List Char} {limit : Nat} (ht : tag.span.Fits src)
    (hs : slice? src tag.span.stop limit = some cs) : FailsOnly (OrdinaryAt (·.Fits src)) (verbatim tag cs) := by
  unfold verbatim
  dsimp only
  split
  · exact .refusedAt rfl ht
  · next text rest hc =>
    split
    · next before after ho =>
      have hopener : slice? src tag.span.stop limit = some (before ++ ("$$#".toList ++ tag.name.toList) ++
          (after ++ (Fault.terminator tag.name).toList ++ rest)) := by
        rw [hs, Text.cut?_eq_some hc, Text.cut?_eq_some ho]
        simp
      exact .refusedAt rfl (Span.fits_of_slice? (Text.slice?_piece hopener))
    · exact .ok

mutual

theorem fits_find {tag : Tag} {cs : List Char} {limit : Nat} (ht : tag.In src)
    (hs : slice? src tag.span.stop limit = some cs) : FailsOnly (OrdinaryAt (·.Fits src)) (find reg tag cs) := by
  rw [find]
  split
  · exact .error ⟨reg.ordinary_unknown tag, reg.fits_unknown ht⟩
  · split
    · exact .ok
    · exact (fits_verbatim ht.span hs).map
    · exact (fits_readSections ht.span hs).map
termination_by 3 * cs.length + 2

theorem fits_readSections {owner : Tag} {words : List String} {control : Option Tag} {pos limit : Nat}
    {cs : List Char} (ho : owner.span.Fits src) (hs : slice? src pos limit = some cs) :
    FailsOnly (OrdinaryAt (·.Fits src)) (readSections reg owner words control pos cs) := by
  rw [readSections]
  refine (fits_boundary ho hs).bind fun b hb => ?_
  obtain ⟨start, next, stop, rest, hrest⟩ := b
  cases next with
  | none => exact .ok
  | some tag =>
    obtain ⟨ms, e, region, w, hn, he, -⟩ := walk_of_boundary (congrArg (Except.map Boundary.seen) hb)
    obtain ⟨-, -, hafter, -, -⟩ := Region.next_reads (w.follows.slice hs) hn
    rw [he.stop_eq] at hafter
    exact (fits_readSections ho hafter).bind fun _ _ => .ok
termination_by 3 * cs.length + 1

theorem fits_boundary {owner : Tag} {words : List String} {pos limit : Nat} {cs : List Char}
    (ho : owner.span.Fits src) (hs : slice? src pos limit = some cs) :
    FailsOnly (OrdinaryAt (·.Fits src)) (boundary reg owner words pos cs) := by
  rw [boundary]
  split
  · next d hd => exact .error (Region.fits_next hs d hd)
  · exact .refusedAt rfl ho
  · next region rest hnext =>
    have hlt : rest.length < cs.length := Region.next_shorter hnext
    obtain ⟨-, -, hrest, hf, -⟩ := Region.next_reads hs hnext
    dsimp only
    split
    · exact (fits_boundary ho hrest).bind fun _ _ => .ok
    · exact (fits_boundary ho hrest).bind fun _ _ => .ok
    · next tag _ =>
      split
      · refine (fits_find hf.tag hrest).bind fun found hfound => ?_
        match found, hfound with
        | none, _ => exact (fits_boundary ho hrest).bind fun _ _ => .ok
        | some ⟨_, stop, after, hafter⟩, hfound =>
          exact (fits_boundary ho ((find_follows hfound).slice hrest)).bind fun _ _ => .ok
      · split
        · exact .ok
        · exact .error ⟨reg.ordinary_unknown tag, reg.fits_unknown hf.tag⟩
    · split
      · exact .ok
      · exact .refusedAt rfl hf.closing
termination_by 3 * cs.length

end

end FoundBody

/-! ### Nodes -/

mutual

def Node.In (src : List Char) : Node → Prop
  | .text _ => True
  | .expr text span => slice? src span.start span.stop = some text.toList
  | .directive tag ss => tag.In src ∧ DocSection.AllIn src ss
  | .fault d => d.span.Fits src

def Node.AllIn (src : List Char) : List Node → Prop
  | [] => True
  | nd :: ns => nd.In src ∧ Node.AllIn src ns

def DocSection.AllIn (src : List Char) : List DocSection → Prop
  | [] => True
  | .mk control _ _ ns :: ss => (∀ t ∈ control, t.In src) ∧ Node.AllIn src ns ∧ DocSection.AllIn src ss

end

theorem DocSection.allIn_map {β : Type} {f : β → DocSection} {xs : List β} (h : ∀ x ∈ xs, AllIn src [f x]) :
    AllIn src (xs.map f) := by
  induction xs with
  | nil => rw [List.map_nil, AllIn]; trivial
  | cons x xs ih =>
    obtain ⟨hx, hxs⟩ := List.forall_mem_cons.1 h
    have hrest := ih hxs
    rw [List.map_cons]
    cases hf : f x with
    | mk control span text ns =>
      rw [hf, AllIn] at hx
      rw [AllIn]
      exact ⟨hx.1, hx.2.1, hrest⟩

mutual

def Node.faults : Node → List Diagnostic
  | .text _ => []
  | .expr _ _ => []
  | .directive _ ss => DocSection.faults ss
  | .fault d => [d]

def Node.faultsAll : List Node → List Diagnostic
  | [] => []
  | nd :: ns => nd.faults ++ Node.faultsAll ns

def DocSection.faults : List DocSection → List Diagnostic
  | [] => []
  | .mk _ _ _ ns :: ss => Node.faultsAll ns ++ DocSection.faults ss

end

theorem DocSection.mem_faults_map {β : Type} {f : β → DocSection} {xs : List β} {d : Diagnostic}
    (h : d ∈ faults (xs.map f)) : ∃ x ∈ xs, d ∈ faults [f x] := by
  induction xs with
  | nil => rw [List.map_nil, faults] at h; cases h
  | cons x xs ih =>
    rw [List.map_cons, show faults (f x :: xs.map f) = faults [f x] ++ faults (xs.map f) by
      cases f x; rw [faults, faults, faults, List.append_nil]] at h
    rcases List.mem_append.1 h with h | h
    · exact ⟨x, List.mem_cons_self, h⟩
    · obtain ⟨y, hy, hd⟩ := ih h
      exact ⟨y, List.mem_cons_of_mem x hy, hd⟩

/-- All that is read of a piece of a source stands where it says, and what is at fault in it is the text. -/
theorem Node.read_in {pos limit : Nat} {cs : List Char} (hs : slice? src pos limit = some cs) :
    AllIn src (read reg pos cs) ∧ ∀ d ∈ faultsAll (read reg pos cs), d.Ordinary := by
  have hcons {nd : Node} {ns : List Node} (hnd : nd.In src ∧ ∀ d ∈ nd.faults, d.Ordinary)
      (hns : AllIn src ns ∧ ∀ d ∈ faultsAll ns, d.Ordinary) :
      AllIn src (nd :: ns) ∧ ∀ d ∈ faultsAll (nd :: ns), d.Ordinary := by
    rw [AllIn, faultsAll]
    exact ⟨⟨hnd.1, hns.1⟩, List.forall_mem_append.2 ⟨hnd.2, hns.2⟩⟩
  have hnil : AllIn src [] ∧ ∀ d ∈ faultsAll [], d.Ordinary := by simp [AllIn, faultsAll]
  have hfault {d : Diagnostic} (h : OrdinaryAt (·.Fits src) d) :
      AllIn src [fault d] ∧ ∀ d' ∈ faultsAll [fault d], d'.Ordinary :=
    hcons (by simpa [In, faults] using h.symm) hnil
  rw [read]
  split
  · next d hd => exact hfault (Region.fits_next hs d hd)
  · exact hnil
  · next region rest hnext =>
    have hlt : rest.length < cs.length := Region.next_shorter hnext
    obtain ⟨-, -, hrest, hf, -⟩ := Region.next_reads hs hnext
    dsimp only
    split
    · exact hcons (by simp [In, faults]) (read_in hrest)
    · exact hcons (by simpa [In, faults] using hf.1) (read_in hrest)
    · exact hfault ⟨Diagnostic.ordinary_of rfl, hf.closing⟩
    · next tag _ =>
      split
      · next d hd => exact hfault (FoundBody.fits_find hf.tag hrest d hd)
      · exact hcons (by simpa [In, faults, DocSection.AllIn, DocSection.faults] using hf.tag) (read_in hrest)
      · next sections stop after hafter hfound =>
        refine hcons ?_ (read_in ((FoundBody.find_follows hfound).slice hrest))
        have hshort (s : RawSection rest.length) : s.chars.length < cs.length :=
          Nat.lt_of_le_of_lt s.length_chars_le hlt
        have hin {s : RawSection rest.length} (hmem : s ∈ sections) :=
          FoundBody.sections_in hrest hfound s.stretch (List.mem_map_of_mem hmem)
        rw [In, faults]
        refine ⟨⟨hf.tag, DocSection.allIn_map fun s hmem => ?_⟩, fun d hd => ?_⟩
        · have := hshort s
          rw [DocSection.AllIn, DocSection.AllIn]
          exact ⟨(hin hmem).control, (read_in (hin hmem).chars).1, trivial⟩
        · obtain ⟨s, hmem, hd⟩ := DocSection.mem_faults_map hd
          have := hshort s
          rw [DocSection.faults, DocSection.faults, List.append_nil] at hd
          exact (read_in (hin hmem).chars).2 d hd
termination_by cs.length

theorem Text.slice?_padded (pos : Nat) (cs : List Char) :
    slice? (List.replicate pos ' ' ++ cs) pos (pos + byteLength cs) = some cs := by
  have hlength : byteLength (List.replicate pos ' ') = pos := by
    induction pos with
    | zero => rfl
    | succ n ih => rw [List.replicate_succ, byteLength, ih, Nat.add_comm]; rfl
  exact slice?_eq_some_iff.2 ⟨List.replicate pos ' ', [], by simp, hlength, rfl⟩

theorem Node.ordinary_read (reg : Registry α) (pos : Nat) (cs : List Char) :
    ∀ d ∈ faultsAll (read reg pos cs), d.Ordinary :=
  (read_in (Text.slice?_padded pos cs)).2

end Stencil
