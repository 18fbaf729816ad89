import Stencil.Proofs.Template.Rescan
/-!
Text that goes on. A scan meets in a longer text what it met in its front, except that plain text at the end of
the front may go on. So the nodes of two texts, one after the other, are those of the first and those of the
second, with the texts at the seam made one.
-/
set_option autoImplicit false

namespace Stencil

namespace Text

/-- A marker does not stand across the seam of two texts, unless a dollar sign ends the first and another one
starts the second. -/
theorem cut?_marker_append {s cs : List Char} (hs : cut? marker s = none)
    (hseam : s.getLast? = some '$' → cs.head? ≠ some '$') :
    cut? marker (s ++ cs) = (cut? marker cs).map fun p => (s ++ p.1, p.2) := by
  induction s with
  | nil => simp
  | cons c s ih =>
    have hstrip : stripWord? marker (c :: s ++ cs) = none := by
      cases hm : stripWord? marker (c :: s ++ cs) with
      | none => rfl
      | some rest =>
        have hmarker := stripWord?_eq_some hm
        cases s with
        | nil =>
          obtain ⟨rfl, hcs⟩ : c = '$' ∧ cs = '$' :: rest := by simpa [marker] using hmarker
          exact absurd (by rw [hcs]; rfl) (hseam rfl)
        | cons d s =>
          obtain ⟨rfl, rfl, -⟩ : c = '$' ∧ d = '$' ∧ s ++ cs = rest := by simpa [marker] using hmarker
          rw [show '$' :: '$' :: s = marker ++ s from rfl, cut?_word] at hs
          cases hs
    have htail : cut? marker s = none := by
      rw [cut?] at hs
      split at hs
      · cases hs
      · exact Option.map_eq_none_iff.1 hs
    have hlast : s.getLast? = some '$' → cs.head? ≠ some '$' := by
      intro h
      refine hseam ?_
      cases s with
      | nil => cases h
      | cons d s => rw [List.getLast?_cons_cons, h]
    rw [List.cons_append, cut?, ← List.cons_append, hstrip]
    simp only [ih htail hlast, Option.map_map]
    rfl

end Text

namespace Region

/-- The first region of a text is that of a longer one, if it is no plain text that ends with the text. -/
theorem next_append {pos : Nat} {cs rest : List Char} {r : Region} (more : List Char)
    (h : next pos cs = .ok (some (r, rest))) (he : ∀ span, r = .text span → rest ≠ []) :
    next pos (cs ++ more) = .ok (some (r, rest ++ more)) := by
  rcases next_cases h with ⟨-, -, rfl, rfl⟩ | ⟨before, after, hb, hc, rfl, rfl⟩ | ⟨after, hc, ha⟩
  · exact absurd rfl (he _ rfl)
  · rw [next_textBefore hb (Text.cut?_append more hc), List.append_assoc]
  · rw [next_marked (Text.cut?_append more hc), afterMarker_append_iff.2 ha]
    rfl

end Region

variable {α : Type} {reg : Registry α} {tag owner : Tag} {words : List String} {control : Option Tag} {pos stop : Nat}
  {cs start rest left : List Char} {region : Region} {ms : List Met} {ss : List Stretch}

theorem Walk.of_nil (w : Walk reg pos [] ms stop left) : ms = [] := by
  have hnone (pos : Nat) {r : Region × List Char} : Region.next pos [] ≠ .ok (some r) := by simp [Region.next]
  cases w with
  | done => rfl
  | text h _ => exact absurd h (hnone _)
  | expr h _ => exact absurd h (hnone _)
  | alone h _ _ => exact absurd h (hnone _)
  | body h _ _ => exact absurd h (hnone _)

/-- A scan that comes to an end within the text, or ends with something else than plain text. -/
def Walk.Firm (ms : List Met) (left : List Char) : Prop := left = [] → ∀ t, ms.getLast? ≠ some (.text t)

theorem Walk.Firm.tail {m : Met} (h : Walk.Firm (m :: ms) left) : Walk.Firm ms left := by
  intro hleft t ht
  refine h hleft t ?_
  cases ms with
  | nil => cases ht
  | cons m' ms => rw [List.getLast?_cons_cons, ht]

section Extension

variable {n : Nat} (more : List Char)
  (hfind : ∀ (tag : Tag) (cs : List Char) (found : FoundBody cs.length), cs.length < n →
    FoundBody.find reg tag cs = .ok (some found) →
    ∃ found', FoundBody.find reg tag (cs ++ more) = .ok (some found') ∧
      found'.seen = (found.extent, found.rest ++ more))

include hfind

theorem Walk.extend_of (w : Walk reg pos cs ms stop left) (hfirm : Walk.Firm ms left) (hn : cs.length ≤ n) :
    Walk reg pos (cs ++ more) ms stop (left ++ more) := by
  induction w with
  | done => exact .done
  | @text pos _ cs rest left span ms h w ih =>
    have hlt := Region.next_shorter h
    have hrest : rest ≠ [] := by
      rintro rfl
      obtain ⟨_, hmid, -⟩ := w.follows
      obtain rfl := w.of_nil
      exact hfirm (List.append_eq_nil_iff.1 hmid.symm).2 _ rfl
    have htext := Walk.text (Region.next_append more h fun _ _ => hrest) (ih hfirm.tail (by omega))
    rwa [Text.before_append_right _ _ _ (by omega)] at htext
  | expr h w ih =>
    have hlt := Region.next_shorter h
    exact .expr (Region.next_append more h nofun) (ih hfirm.tail (by omega))
  | alone h hf w ih =>
    have hlt := Region.next_shorter h
    exact .alone (Region.next_append more h nofun) (FoundBody.find_alone _ hf) (ih hfirm.tail (by omega))
  | @body _ _ _ _ _ _ found _ h hf w ih =>
    have hlt := Region.next_shorter h
    have hlt' := found.shorter
    obtain ⟨found', hf', hs⟩ := hfind _ _ found (by omega) hf
    obtain ⟨hx, hr⟩ := Prod.mk.inj hs
    rw [← hx]
    refine .body (Region.next_append more h nofun) hf' ?_
    rw [show found'.stop = found.stop from congrArg Extent.stop hx, show found'.rest = found.rest ++ more from hr]
    exact ih hfirm.tail (by omega)

theorem Walk.section_extend_of
    (w : Walk reg pos cs ms stop start) (h : Region.next stop start = .ok (some (region, rest)))
    (hn : cs.length ≤ n) :
    Walk reg pos (cs ++ more) ms stop (start ++ more) ∧
      Text.before (cs ++ more) (start ++ more) = Text.before cs start ∧ start.length ≤ cs.length := by
  have hstart : start ≠ [] := by
    rintro rfl
    simp [Region.next] at h
  have hle : start.length ≤ cs.length := by
    obtain ⟨front, rfl, -⟩ := w.follows
    simp
  exact ⟨w.extend_of more hfind (fun h0 => absurd h0 hstart) hn, Text.before_append_right _ _ _ hle, hle⟩

theorem Chain.extend_of (c : Chain reg owner words control pos cs ss stop left)
    (hn : cs.length ≤ n) : Chain reg owner words control pos (cs ++ more) ss stop (left ++ more) := by
  induction c with
  | last w h hends =>
    obtain ⟨w', hb, -⟩ := w.section_extend_of more hfind h hn
    rw [← hb]
    exact .last w' (Region.next_append more h fun _ ht => by cases hends; cases ht) hends
  | more w h hends _ ih =>
    have hlt := Region.next_shorter h
    obtain ⟨w', hb, hle⟩ := w.section_extend_of more hfind h hn
    rw [← hb]
    exact .more w' (Region.next_append more h fun _ ht => by cases hends; cases ht) hends (ih (by omega))

end Extension

theorem Walk.split {ns : List Met} (w : Walk reg pos cs (ms ++ ns) stop left) :
    ∃ e mid, Walk reg pos cs ms e mid ∧ Walk reg e mid ns stop left := by
  induction ms generalizing pos cs with
  | nil => exact ⟨pos, cs, .done, w⟩
  | cons m ms ih =>
    cases w with
    | text h w =>
      obtain ⟨e, mid, front, back⟩ := ih w
      exact ⟨e, mid, .text h front, back⟩
    | expr h w =>
      obtain ⟨e, mid, front, back⟩ := ih w
      exact ⟨e, mid, .expr h front, back⟩
    | alone h hf w =>
      obtain ⟨e, mid, front, back⟩ := ih w
      exact ⟨e, mid, .alone h hf front, back⟩
    | body h hf w =>
      obtain ⟨e, mid, front, back⟩ := ih w
      exact ⟨e, mid, .body h hf front, back⟩

namespace Node

/-- Nodes of which the second list has two texts in a row where the first may have them as one. -/
def Merged (ns ms : List Node) : Prop :=
  ns = ms ∨ ∃ front s t back, ns = front ++ text (s ++ t) :: back ∧ ms = front ++ text s :: text t :: back

theorem Merged.after {ns ms : List Node} (h : Merged ns ms) (front : List Node) :
    Merged (front ++ ns) (front ++ ms) := by
  obtain rfl | ⟨front', s, t, back, rfl, rfl⟩ := h
  · exact .inl rfl
  · exact .inr ⟨front ++ front', s, t, back, by simp, by simp⟩

end Node

end Stencil
