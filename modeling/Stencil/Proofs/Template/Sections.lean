import Stencil.Proofs.Except
import Stencil.Proofs.Template.Walk
set_option autoImplicit false

namespace Stencil

variable {α : Type} {reg : Registry α} {tag owner t : Tag} {words : List String} {control : Option Tag} {pos stop : Nat}
  {cs start rest left : List Char} {region : Region} {ms : List Met} {ss : List Stretch} {x : Extent}

def Boundary.seen {n : Nat} (b : Boundary n) : List Char × Option Tag × Nat × List Char :=
  (b.start, b.control, b.stop, b.rest)

namespace FoundBody

def seen {n : Nat} (b : FoundBody n) : Extent × List Char := (b.extent, b.rest)

theorem contains_of_find {found : Option (FoundBody cs.length)}
    (h : find reg tag cs = .ok found) : reg.contains tag.name = true := by
  rw [find] at h
  cases hg : reg.get? tag.name with
  | none => simp [hg] at h
  | some d => simp [Registry.contains, hg]

/-- What the search for the end of a section does with one region. -/
theorem boundary_step (owner : Tag) (words : List String) (pos : Nat) (cs : List Char) :
    (boundary reg owner words pos cs).map Boundary.seen =
      match Region.next pos cs with
      | .error d => .error d
      | .ok none => .error (unterminated owner)
      | .ok (some (.text span, rest)) => (boundary reg owner words span.stop rest).map Boundary.seen
      | .ok (some (.expr _ span, rest)) => (boundary reg owner words (span.stop + 2) rest).map Boundary.seen
      | .ok (some (.opening tag, rest)) =>
        if reg.contains tag.name then
          match find reg tag rest with
          | .error d => .error d
          | .ok none => (boundary reg owner words tag.span.stop rest).map Boundary.seen
          | .ok (some b) => (boundary reg owner words b.stop b.rest).map Boundary.seen
        else if words.contains tag.name then .ok (cs, some tag, tag.span.stop, rest)
        else .error (reg.unknown tag)
      | .ok (some (.closing name span, rest)) =>
        if name = owner.name then .ok (cs, none, span.stop, rest)
        else .error (.of (.wrongTerminator name owner.name) span) := by
  rw [boundary]
  split
  · next h => rw [h]; rfl
  · next h => rw [h]; rfl
  · next region rest h =>
    cases region with
    | text span =>
      simp only [h, Region.stop]
      cases boundary reg owner words span.stop rest <;> rfl
    | expr source span =>
      simp only [h, Region.stop]
      cases boundary reg owner words (span.stop + 2) rest <;> rfl
    | opening tag =>
      by_cases hc : reg.contains tag.name = true
      · simp only [h, hc, if_true]
        cases find reg tag rest with
        | error d => rfl
        | ok found =>
          cases found with
          | none =>
            simp only [bind, Except.bind]
            cases boundary reg owner words tag.span.stop rest <;> rfl
          | some b =>
            simp only [bind, Except.bind]
            cases boundary reg owner words b.stop b.rest <;> rfl
      · simp only [h, hc, if_false, Bool.false_eq_true]
        split <;> rfl
    | closing name span =>
      simp only [h]
      split <;> rfl

theorem boundary_stuck {seen : List Char × Option Tag × Nat × List Char}
    (h : (boundary reg owner words pos cs).map Boundary.seen = .ok seen) :
    ∃ region rest, Region.next pos cs = .ok (some (region, rest)) := by
  rw [boundary] at h
  split at h
  · cases h
  · cases h
  · next region rest h' => exact ⟨region, rest, h'⟩

theorem readSections_step : (readSections reg owner words control pos cs).map seen =
      match (boundary reg owner words pos cs).map Boundary.seen with
      | .error d => .error d
      | .ok (start, none, stop, rest) => .ok (⟨[⟨control, pos, Text.before cs start⟩], stop⟩, rest)
      | .ok (start, some t, _, rest) =>
        match (readSections reg owner words (some t) t.span.stop rest).map seen with
        | .error d => .error d
        | .ok (more, left) => .ok (⟨⟨control, pos, Text.before cs start⟩ :: more.sections, more.stop⟩, left) := by
  rw [readSections]
  cases boundary reg owner words pos cs with
  | error d => rfl
  | ok b =>
    obtain ⟨start, next, stop, rest, h⟩ := b
    cases next with
    | none => rfl
    | some t =>
      simp only [bind, Except.bind, Except.map, Boundary.seen]
      cases readSections reg owner words (some t) t.span.stop rest with
      | error d => rfl
      | ok found =>
        simp only [pure, Except.pure, seen, extent, List.map_cons, List.map_map]
        rfl

end FoundBody

/-- Reading from `pos` on leaves a tail of the text, at the byte where the tail starts. -/
def Follows (pos : Nat) (cs : List Char) (stop : Nat) (left : List Char) : Prop :=
  ∃ front, cs = front ++ left ∧ stop = pos + Text.byteLength front

namespace Follows

theorem refl (pos : Nat) (cs : List Char) : Follows pos cs pos cs := ⟨[], rfl, rfl⟩

theorem trans {p q r : Nat} {as bs : List Char} (h : Follows p as q bs) (h' : Follows q bs r cs) :
    Follows p as r cs := by
  obtain ⟨front, rfl, rfl⟩ := h
  obtain ⟨front', rfl, rfl⟩ := h'
  exact ⟨front ++ front', by simp, by simp; omega⟩

theorem of_next {r : Region} (h : Region.next pos cs = .ok (some (r, rest))) : Follows pos cs r.stop rest := by
  obtain ⟨front, hcs, -, -, hstop, -⟩ := Region.next_place h
  exact ⟨front, hcs, hstop⟩

end Follows

/-- The regions that end a section: a control tag of the directive, or its terminator. -/
inductive Region.Ends (reg : Registry α) (owner : Tag) (words : List String) : Region → Option Tag → Prop where
  | control {t : Tag} : reg.contains t.name = false → words.contains t.name = true →
    Ends reg owner words (.opening t) (some t)
  | terminator {span : Span} : Ends reg owner words (.closing owner.name span) none

/-- A body read section by section: a scan of each section comes to the region that ends it. -/
inductive Chain (reg : Registry α) (owner : Tag) (words : List String) :
    Option Tag → Nat → List Char → List Stretch → Nat → List Char → Prop where
  | last {control : Option Tag} {pos stop : Nat} {cs start rest : List Char} {ms : List Met} {region : Region} :
    Walk reg pos cs ms stop start → Region.next stop start = .ok (some (region, rest)) →
    region.Ends reg owner words none →
    Chain reg owner words control pos cs [⟨control, pos, Text.before cs start⟩] region.stop rest
  | more {control : Option Tag} {pos stop stop' : Nat} {cs start rest left : List Char} {ms : List Met}
      {region : Region} {t : Tag} {ss : List Stretch} :
    Walk reg pos cs ms stop start → Region.next stop start = .ok (some (region, rest)) →
    region.Ends reg owner words (some t) → Chain reg owner words (some t) t.span.stop rest ss stop' left →
    Chain reg owner words control pos cs (⟨control, pos, Text.before cs start⟩ :: ss) stop' left

namespace Walk

theorem boundary_eq (owner : Tag) (words : List String) (w : Walk reg pos cs ms stop left) :
    (FoundBody.boundary reg owner words pos cs).map Boundary.seen =
      (FoundBody.boundary reg owner words stop left).map Boundary.seen := by
  induction w with
  | done => rfl
  | text hn _ ih => rw [FoundBody.boundary_step, hn, ← ih]
  | expr hn _ ih => rw [FoundBody.boundary_step, hn, ← ih]
  | alone hn hf _ ih => rw [FoundBody.boundary_step, hn, ← ih]; simp [FoundBody.contains_of_find hf, hf]
  | body hn hf _ ih => rw [FoundBody.boundary_step, hn, ← ih]; simp [FoundBody.contains_of_find hf, hf]

theorem boundary_eq_ok (w : Walk reg pos cs ms stop left)
    (hn : Region.next stop left = .ok (some (region, rest))) (he : region.Ends reg owner words control) :
    (FoundBody.boundary reg owner words pos cs).map Boundary.seen =
      .ok (left, control, region.stop, rest) := by
  rw [w.boundary_eq owner words, FoundBody.boundary_step, hn]
  cases he with
  | control hc hw => simp only [hc, hw, Bool.false_eq_true, if_false, if_true, Region.stop]
  | terminator => simp [Region.stop]

end Walk

namespace FoundBody

theorem walk_of_boundary (h : (boundary reg owner words pos cs).map Boundary.seen = .ok (start, control, stop, rest)) :
    ∃ ms e region, Walk reg pos cs ms e start ∧ Region.next e start = .ok (some (region, rest)) ∧
      region.Ends reg owner words control ∧ region.stop = stop := by
  -- On the length of the text: the search goes on after a region, or after a whole body, and both shorten it.
  induction hl : cs.length using Nat.strongRecOn generalizing pos cs with
  | ind n ih =>
    subst hl
    obtain ⟨region, rest', hn⟩ := boundary_stuck h
    have hlt := Region.next_shorter hn
    rw [boundary_step, hn] at h
    cases region with
    | text span =>
      obtain ⟨ms, e, region, w, hr⟩ := ih _ hlt h rfl
      exact ⟨_, e, region, .text hn w, hr⟩
    | expr source span =>
      obtain ⟨ms, e, region, w, hr⟩ := ih _ hlt h rfl
      exact ⟨_, e, region, .expr hn w, hr⟩
    | opening tag =>
      cases hc : reg.contains tag.name with
      | true =>
        simp only [hc, if_true] at h
        cases hf : find reg tag rest' with
        | error d => simp [hf] at h
        | ok found =>
          cases found with
          | none =>
            simp only [hf] at h
            obtain ⟨ms, e, region, w, hr⟩ := ih _ hlt h rfl
            exact ⟨_, e, region, .alone hn hf w, hr⟩
          | some b =>
            simp only [hf] at h
            obtain ⟨ms, e, region, w, hr⟩ := ih _ (Nat.lt_trans b.shorter hlt) h rfl
            exact ⟨_, e, region, .body hn hf w, hr⟩
      | false =>
        simp only [hc, Bool.false_eq_true, if_false] at h
        split at h
        · next hw =>
          cases h
          exact ⟨[], pos, _, .done, hn, .control hc hw, rfl⟩
        · cases h
    | closing name span =>
      simp only at h
      split at h
      · next hname =>
        cases h
        subst hname
        exact ⟨[], pos, _, .done, hn, .terminator, rfl⟩
      · cases h

theorem boundary_shorter {next : Option Tag}
    (h : (boundary reg owner words pos cs).map Boundary.seen = .ok (start, next, stop, rest)) :
    rest.length < cs.length := by
  obtain ⟨b, -, hs⟩ := exists_of_map_ok h
  rw [show rest = b.rest from congrArg (·.2.2.2) hs.symm]
  exact b.shorter

theorem chain_of_readSections (h : (readSections reg owner words control pos cs).map seen = .ok (x, left)) :
    Chain reg owner words control pos cs x.sections x.stop left := by
  induction hl : cs.length using Nat.strongRecOn generalizing control pos cs x with
  | ind n ih =>
    subst hl
    rw [readSections_step] at h
    cases hb : (boundary reg owner words pos cs).map Boundary.seen with
    | error d => simp [hb] at h
    | ok seen' =>
      obtain ⟨start, next, stop, rest⟩ := seen'
      obtain ⟨ms, e, region, w, hn, he, rfl⟩ := walk_of_boundary hb
      cases next with
      | none =>
        simp only [hb, Except.ok.injEq, Prod.mk.injEq] at h
        obtain ⟨rfl, rfl⟩ := h
        exact .last w hn he
      | some t =>
        simp only [hb] at h
        cases hm : (readSections reg owner words (some t) t.span.stop rest).map seen with
        | error d => simp [hm] at h
        | ok p =>
          obtain ⟨more, left'⟩ := p
          simp only [hm, Except.ok.injEq, Prod.mk.injEq] at h
          obtain ⟨rfl, rfl⟩ := h
          exact .more w hn he (ih _ (boundary_shorter hb) hm rfl)

theorem readSections_of_chain (c : Chain reg owner words control pos cs ss stop left) :
    (readSections reg owner words control pos cs).map seen = .ok (⟨ss, stop⟩, left) := by
  induction c with
  | last w hn he => rw [readSections_step, w.boundary_eq_ok hn he]
  | more w hn he _ ih => rw [readSections_step, w.boundary_eq_ok hn he]; simp only [ih]

theorem seen_verbatim (tag : Tag) (cs : List Char) : (verbatim tag cs).map seen =
      match Text.cut? (Fault.terminator tag.name).toList cs with
      | none => .error (unterminated tag)
      | some (text, rest) =>
        match Text.cut? ("$$#".toList ++ tag.name.toList) text with
        | some (before, _) => .error (.of (.nestedInItself tag.name)
            (Region.spanOf (tag.span.stop + Text.byteLength before) ("$$#".toList ++ tag.name.toList)))
        | none => .ok (⟨[⟨none, tag.span.stop, text⟩],
            tag.span.stop + Text.byteLength (text ++ (Fault.terminator tag.name).toList)⟩, rest) := by
  simp only [verbatim]
  split
  · next hc => simp only [hc, Except.map]
  · next text rest hc =>
    simp only [hc]
    cases Text.cut? ("$$#".toList ++ tag.name.toList) text with
    | some p => rfl
    | none => simp [Except.map, seen, extent, RawSection.stretch, RawSection.chars, Text.before, Nat.add_assoc]

theorem exists_found_iff {n : Nat} {body : Except Diagnostic (FoundBody n)} {p : Extent × List Char} :
    (∃ found, body.map some = .ok (some found) ∧ found.seen = p) ↔ body.map seen = .ok p := by
  cases body <;> simp [Except.map]

/-- A body that is found follows its tag: a verbatim one up to the first terminator, a nested one section by
section. -/
theorem find_iff :
    (∃ found, find reg tag cs = .ok (some found) ∧ found.seen = (x, rest)) ↔ ∃ d, reg.get? tag.name = some d ∧
      (d.body tag.args = .verbatim ∧ (∃ text, Text.cut? (Fault.terminator tag.name).toList cs = some (text, rest) ∧
        Text.cut? ("$$#".toList ++ tag.name.toList) text = none ∧ x = ⟨[⟨none, tag.span.stop, text⟩],
          tag.span.stop + Text.byteLength (text ++ (Fault.terminator tag.name).toList)⟩) ∨
       d.body tag.args = .nested ∧ Chain reg tag d.words none tag.span.stop cs x.sections x.stop rest) := by
  rw [find]
  cases reg.get? tag.name with
  | none => simp
  | some d =>
    cases hb : d.body tag.args with
    | none => simp [hb]
    | verbatim =>
      simp only [exists_found_iff, seen_verbatim, Option.some.injEq, exists_eq_left', hb]
      cases hc : Text.cut? (Fault.terminator tag.name).toList cs with
      | none => simp
      | some p =>
        obtain ⟨text, left⟩ := p
        cases ho : Text.cut? ("$$#".toList ++ tag.name.toList) text <;> grind
    | nested =>
      simp only [exists_found_iff, Option.some.injEq, exists_eq_left', hb]
      simpa using ⟨chain_of_readSections, readSections_of_chain⟩

end FoundBody

theorem Region.Ends.stop_eq (h : region.Ends reg owner words (some t)) : region.stop = t.span.stop := by
  cases h
  rfl

/-! Where scans and bodies end. The statements about scans and those about bodies need each other, so the
former are first made for texts up to the length for which the latter are known. -/

section Follows

variable {n : Nat}
  (hfind : ∀ (tag : Tag) (cs : List Char) (found : FoundBody cs.length), cs.length < n →
    FoundBody.find reg tag cs = .ok (some found) → Follows tag.span.stop cs found.stop found.rest)

include hfind

theorem Walk.follows_of (w : Walk reg pos cs ms stop left) (hn : cs.length ≤ n) : Follows pos cs stop left := by
  induction w with
  | done => exact .refl _ _
  | text h _ ih =>
    have := Region.next_shorter h
    exact (Follows.of_next h).trans (ih (by omega))
  | expr h _ ih =>
    have := Region.next_shorter h
    exact (Follows.of_next h).trans (ih (by omega))
  | alone h _ _ ih =>
    have := Region.next_shorter h
    exact (Follows.of_next h).trans (ih (by omega))
  | @body _ _ _ _ _ _ found _ h hf _ ih =>
    have := Region.next_shorter h
    have := found.shorter
    exact ((Follows.of_next h).trans (hfind _ _ _ (by omega) hf)).trans (ih (by omega))

theorem Chain.follows_of (c : Chain reg owner words control pos cs ss stop left)
    (hn : cs.length ≤ n) : Follows pos cs stop left := by
  induction c with
  | last w h he => exact (w.follows_of hfind hn).trans (.of_next h)
  | @more _ _ _ _ cs start _ _ _ _ _ _ w h he _ ih =>
    have hw := w.follows_of hfind hn
    have hlt := Region.next_shorter h
    obtain ⟨front, hcs, -⟩ := hw
    have hl := congrArg List.length hcs
    rw [List.length_append] at hl
    have hr := Follows.of_next h
    rw [he.stop_eq] at hr
    exact ((w.follows_of hfind hn).trans hr).trans (ih (by omega))

end Follows

theorem FoundBody.find_follows_of_length (n : Nat) (tag : Tag) (cs : List Char) (found : FoundBody cs.length)
    (hn : cs.length < n) (h : find reg tag cs = .ok (some found)) :
    Follows tag.span.stop cs found.stop found.rest := by
  induction n generalizing tag cs found with
  | zero => omega
  | succ n ih =>
    obtain ⟨d, -, ⟨-, text, hc, -, hx⟩ | ⟨-, hc⟩⟩ := find_iff.1 ⟨found, h, rfl⟩
    · refine ⟨text ++ (Fault.terminator tag.name).toList, Text.cut?_eq_some hc, ?_⟩
      exact congrArg Extent.stop hx
    · exact hc.follows_of ih (by omega)

theorem FoundBody.find_follows {found : FoundBody cs.length}
    (h : find reg tag cs = .ok (some found)) : Follows tag.span.stop cs found.stop found.rest :=
  find_follows_of_length (cs.length + 1) tag cs found (Nat.lt_succ_self _) h

theorem Walk.follows (w : Walk reg pos cs ms stop left) : Follows pos cs stop left :=
  w.follows_of (FoundBody.find_follows_of_length cs.length) (Nat.le_refl _)

theorem Chain.follows (c : Chain reg owner words control pos cs ss stop left) : Follows pos cs stop left :=
  c.follows_of (FoundBody.find_follows_of_length cs.length) (Nat.le_refl _)

end Stencil
