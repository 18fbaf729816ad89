import Stencil.Directive.Standard
import Stencil.Proofs.Template.Sections
/-!
Sections read again on their own. The search for the end of a body may read far beyond a section, yet a
scan of the section alone meets what the search met in it: a region or a body that ends within a front of
a text is the same in the front.
-/
set_option autoImplicit false

namespace Stencil

variable {α : Type} {reg : Registry α} {tag owner t : Tag} {words : List String} {control : Option Tag} {pos stop : Nat}
  {cs more start rest left : List Char} {region : Region} {ms : List Met} {ss : List Stretch}

theorem Region.Edge.of_text {span : Span}
    (h : Region.next pos cs = .ok (some (.text span, rest))) : Region.Edge rest := by
  rcases Region.next_cases h with ⟨-, -, -, rfl⟩ | ⟨before, after, -, -, -, rfl⟩ | ⟨after, -, ha⟩
  · exact .inl rfl
  · exact .inr ⟨after, rfl⟩
  · exact absurd ha (Region.afterMarker_ne_text _ _ _ _ _)

theorem Region.marked_of_ends (h : Region.next pos cs = .ok (some (region, rest)))
    (he : region.Ends reg owner words control) : marker <+: cs := by
  rcases Region.next_cases h with ⟨-, -, rfl, -⟩ | ⟨before, after, -, -, rfl, -⟩ | ⟨after, hc, -⟩
  · cases he
  · cases he
  · exact ⟨after, (Text.cut?_eq_some hc).symm⟩

theorem Walk.first (w : Walk reg pos cs ms stop left) :
    cs = left ∨ ∃ region rest, Region.next pos cs = .ok (some (region, rest)) ∧
      Follows region.stop rest stop left := by
  cases w with
  | done => exact .inl rfl
  | text h w => exact .inr ⟨_, _, h, w.follows⟩
  | expr h w => exact .inr ⟨_, _, h, w.follows⟩
  | alone h _ w => exact .inr ⟨_, _, h, w.follows⟩
  | body h hf w => exact .inr ⟨_, _, h, (FoundBody.find_follows hf).trans w.follows⟩

/-- Where a region may end in a text it may end in a front of it, if a scan ends in the front so. -/
theorem Walk.edge (w : Walk reg pos (cs ++ more) ms stop (left ++ more)) (hl : Region.Edge left)
    (he : Region.Edge (cs ++ more)) : Region.Edge cs := by
  rcases w.first with heq | ⟨region, rest, hn, ⟨mid, rfl, -⟩⟩
  · rwa [List.append_cancel_right heq]
  · obtain ⟨front, hcs, hne, -, -, hm⟩ := Region.next_place hn
    have hcs' : cs ++ more = (front ++ mid ++ left) ++ more := by rw [hcs]; simp
    obtain rfl := List.append_cancel_right hcs'
    rcases he with he | he
    · simp [hne] at he
    · obtain ⟨tail, rfl⟩ := hm he
      exact .inr ⟨tail ++ mid ++ left, by simp⟩

theorem Text.before_append_right (a b more : List Char) (h : b.length ≤ a.length) :
    Text.before (a ++ more) (b ++ more) = Text.before a b := by
  have hs : (a ++ more).length - (b ++ more).length = a.length - b.length := by
    simp only [List.length_append]; omega
  rw [Text.before, hs, List.take_append_of_le_length (by omega)]
  rfl

theorem FoundBody.find_alone (cs' : List Char) (h : find reg tag cs = .ok none) : find reg tag cs' = .ok none := by
  rw [find] at h ⊢
  cases hg : reg.get? tag.name with
  | none => simp [hg] at h
  | some d =>
    cases hb : d.body tag.args with
    | none => simp only [hb]
    | verbatim =>
      simp only [hg, hb] at h
      obtain ⟨found, -, hs⟩ := exists_of_map_ok h
      cases hs
    | nested =>
      simp only [hg, hb] at h
      obtain ⟨found, -, hs⟩ := exists_of_map_ok h
      cases hs

section Front

variable {n : Nat}
  (hfind : ∀ (tag : Tag) (cs more rest : List Char) (found : FoundBody (cs ++ more).length),
    (cs ++ more).length < n → FoundBody.find reg tag (cs ++ more) = .ok (some found) →
    found.rest = rest ++ more →
    ∃ found', FoundBody.find reg tag cs = .ok (some found') ∧ found'.seen = (found.extent, rest))

include hfind

theorem Walk.front_of (w : Walk reg pos (cs ++ more) ms stop (left ++ more)) (he : Region.Edge left)
    (hn : (cs ++ more).length ≤ n) : Walk reg pos cs ms stop left := by
  -- The walk is over the whole text, so each step has to be cut back to what stands before `more`.
  generalize hw : cs ++ more = whole at w hn
  generalize hl : left ++ more = last at w
  induction w generalizing cs with
  | done =>
    obtain rfl := List.append_cancel_right (hw.trans hl.symm)
    exact .done
  | @text _ _ _ rest _ _ _ h w ih =>
    subst hw hl
    have hlt := Region.next_shorter h
    obtain ⟨mid, hmid, -⟩ := w.follows
    obtain rfl : rest = (mid ++ left) ++ more := by rw [hmid]; simp
    have hedge := w.edge he (.of_text h)
    obtain ⟨front, hcs, -⟩ := Follows.of_next h
    have hle : (mid ++ left).length ≤ cs.length := by
      have := congrArg List.length hcs
      simp only [List.length_append] at this ⊢; omega
    rw [Text.before_append_right _ _ _ hle]
    exact .text (Region.next_front h fun _ _ => hedge) (ih rfl (by omega) rfl)
  | @expr _ _ _ rest _ _ _ _ h w ih =>
    subst hw hl
    have hlt := Region.next_shorter h
    obtain ⟨mid, hmid, -⟩ := w.follows
    obtain rfl : rest = (mid ++ left) ++ more := by rw [hmid]; simp
    exact .expr (Region.next_front h fun _ ht => by cases ht) (ih rfl (by omega) rfl)
  | @alone _ _ _ rest _ _ _ h hf w ih =>
    subst hw hl
    have hlt := Region.next_shorter h
    obtain ⟨mid, hmid, -⟩ := w.follows
    obtain rfl : rest = (mid ++ left) ++ more := by rw [hmid]; simp
    exact .alone (Region.next_front h fun _ ht => by cases ht) (FoundBody.find_alone _ hf)
      (ih rfl (by omega) rfl)
  | @body _ _ _ rest _ _ found _ h hf w ih =>
    subst hw hl
    have hlt := Region.next_shorter h
    have hlt' := found.shorter
    obtain ⟨mid, hmid, -⟩ := w.follows
    obtain ⟨inner, hrest, -⟩ := FoundBody.find_follows hf
    have hr : found.rest = (mid ++ left) ++ more := by rw [hmid]; simp
    obtain rfl : rest = (inner ++ mid ++ left) ++ more := by rw [hrest, hmid]; simp
    obtain ⟨found', hf', hs⟩ := hfind _ _ _ _ found (by omega) hf hr
    obtain ⟨hx, hr'⟩ := Prod.mk.inj hs
    have w' := @ih (mid ++ left) hr.symm (by omega) rfl
    rw [← hx]
    refine .body (Region.next_front h fun _ ht => by cases ht) hf' ?_
    rw [show found'.stop = found.stop from congrArg Extent.stop hx, show found'.rest = mid ++ left from hr']
    exact w'

/-- A section whose end is read within a front of a text ends the same way in the front. -/
theorem Walk.section_front_of (w : Walk reg pos (cs ++ more) ms stop start)
    (h : Region.next stop start = .ok (some (region, rest ++ more)))
    (hends : region.Ends reg owner words control) (hn : (cs ++ more).length ≤ n) :
    ∃ start', Text.before (cs ++ more) start = Text.before cs start' ∧ Walk reg pos cs ms stop start' ∧
      Region.next stop start' = .ok (some (region, rest)) ∧ start'.length ≤ cs.length := by
  obtain ⟨front, hstart, -, -, -, hm⟩ := Region.next_place h
  have hedge : Region.Edge (front ++ rest) := by
    obtain ⟨tail, rfl⟩ := hm (Region.marked_of_ends h hends)
    exact .inr ⟨tail ++ rest, by simp⟩
  obtain rfl : start = (front ++ rest) ++ more := by rw [hstart]; simp
  obtain ⟨text, hcs, -⟩ := w.follows
  have hle : (front ++ rest).length ≤ cs.length := by
    have := congrArg List.length hcs
    simp only [List.length_append] at this ⊢; omega
  refine ⟨front ++ rest, Text.before_append_right _ _ _ hle, w.front_of hfind hedge hn, ?_, hle⟩
  exact Region.next_front h fun _ ht => by cases hends <;> cases ht

theorem Chain.front_of (c : Chain reg owner words control pos (cs ++ more) ss stop (left ++ more))
    (hn : (cs ++ more).length ≤ n) : Chain reg owner words control pos cs ss stop left := by
  generalize hw : cs ++ more = whole at c hn
  generalize hl : left ++ more = last at c
  induction c generalizing cs with
  | last w h hends =>
    subst hw hl
    obtain ⟨start', hb, w', h', -⟩ := w.section_front_of hfind h hends hn
    rw [hb]
    exact .last w' h' hends
  | @more _ _ _ _ _ _ rest _ _ _ _ _ w h hends c ih =>
    subst hw hl
    obtain ⟨mid, hmid, -⟩ := c.follows
    obtain rfl : rest = (mid ++ left) ++ more := by rw [hmid]; simp
    obtain ⟨start', hb, w', h', hle⟩ := w.section_front_of hfind h hends hn
    have hlt := Region.next_shorter h'
    rw [hb]
    refine .more w' h' hends (ih rfl ?_ rfl)
    simp only [List.length_append] at hn hle hlt ⊢; omega

end Front

theorem FoundBody.find_front_of_length (n : Nat) (tag : Tag) (cs more rest : List Char)
    (found : FoundBody (cs ++ more).length) (hn : (cs ++ more).length < n)
    (h : find reg tag (cs ++ more) = .ok (some found)) (hr : found.rest = rest ++ more) :
    ∃ found', find reg tag cs = .ok (some found') ∧ found'.seen = (found.extent, rest) := by
  induction n generalizing tag cs more rest found with
  | zero => omega
  | succ n ih =>
    obtain ⟨d, hg, ⟨hb, text, hcut, hx⟩ | ⟨hb, hc⟩⟩ := find_iff.1 ⟨found, h, congrArg (found.extent, ·) hr⟩
    · exact find_iff.2 ⟨d, hg, .inl ⟨hb, text, Text.cut?_front hcut, hx⟩⟩
    · exact find_iff.2 ⟨d, hg, .inr ⟨hb, hc.front_of ih (by omega)⟩⟩

theorem Walk.front (w : Walk reg pos (cs ++ more) ms stop (left ++ more)) (he : Region.Edge left) :
    Walk reg pos cs ms stop left :=
  w.front_of (FoundBody.find_front_of_length _) he (Nat.le_refl _)

def Stretch.doc (reg : Registry α) (s : Stretch) : DocSection :=
  .mk s.control ⟨s.start, s.stop⟩ (String.ofList s.chars) (Node.read reg s.start s.chars)

theorem Node.read_step (reg : Registry α) (pos : Nat) (cs : List Char) : read reg pos cs =
      match Region.next pos cs with
      | .error d => [fault d]
      | .ok none => []
      | .ok (some (.text span, rest)) => text (String.ofList (Text.before cs rest)) :: read reg span.stop rest
      | .ok (some (.expr source span, rest)) => expr source span :: read reg (span.stop + 2) rest
      | .ok (some (.closing name span, _)) => [fault (.of (.strayTerminator name) span)]
      | .ok (some (.opening tag, rest)) =>
        match FoundBody.find reg tag rest with
        | .error d => [fault d]
        | .ok none => directive tag [] :: read reg tag.span.stop rest
        | .ok (some found) =>
          directive tag (found.extent.sections.map (Stretch.doc reg)) :: read reg found.stop found.rest := by
  rw [read]
  split
  · next h => rw [h]
  · next h => rw [h]
  · next region rest h =>
    cases region with
    | text span => simp only [h, Region.stop]
    | expr source span => simp only [h, Region.stop]
    | closing name span => simp only [h]
    | opening tag =>
      simp only [h]
      cases FoundBody.find reg tag rest with
      | error d => rfl
      | ok found =>
        cases found with
        | none => rfl
        | some b =>
          simp only [FoundBody.extent, List.map_map]
          rfl

def Met.node (reg : Registry α) : Met → Node
  | text chars => .text (String.ofList chars)
  | expr source span => .expr source span
  | directive tag body => .directive tag ((body.map (·.sections)).getD [] |>.map fun s =>
      .mk s.control ⟨s.start, s.stop⟩ (String.ofList s.chars) (Node.read reg s.start s.chars))

theorem Walk.read_eq (w : Walk reg pos cs ms stop left) :
    Node.read reg pos cs = ms.map (Met.node reg) ++ Node.read reg stop left := by
  induction w with
  | done => rfl
  | text h _ ih => rw [Node.read_step, h, List.map_cons, List.cons_append, ← ih]; rfl
  | expr h _ ih => rw [Node.read_step, h, List.map_cons, List.cons_append, ← ih]; rfl
  | alone h hf _ ih => rw [Node.read_step, h, List.map_cons, List.cons_append, ← ih]; simp only [hf]; rfl
  | body h hf _ ih => rw [Node.read_step, h, List.map_cons, List.cons_append, ← ih]; simp only [hf]; rfl

/-- The body of a tag in a source, of which what stands before `limit` counts. -/
def FoundBody.within (reg : Registry α) (src : List Char) (tag : Tag) (limit : Nat) :
    Except Diagnostic (Option Extent) :=
  (find reg tag (Text.slice src tag.span.stop limit)).map (Option.map extent)

/-- Sections that leave no gap: after each but the last stands the control tag of the next, and after the
last stands the terminator. -/
inductive Adjoining (src : List Char) (limit : Nat) (owner : Tag) :
    Option Tag → Nat → List Stretch → Nat → Prop where
  | last {s : Stretch} {span : Span} {rest : List Char} :
    Region.next s.stop (Text.slice src s.stop limit) = .ok (some (.closing owner.name span, rest)) →
    span.start = s.stop → Adjoining src limit owner s.control s.start [s] span.stop
  | more {s : Stretch} {t : Tag} {ss : List Stretch} {stop : Nat} {rest : List Char} :
    Region.next s.stop (Text.slice src s.stop limit) = .ok (some (.opening t, rest)) →
    t.span.start = s.stop → Adjoining src limit owner (some t) t.span.stop ss stop →
    Adjoining src limit owner s.control s.start (s :: ss) stop

namespace Chain

variable {limit : Nat} {src : List Char}

theorem adjoining (c : Chain reg owner words control pos cs ss stop left) (hr : Text.Reads src limit pos cs) :
    Adjoining src limit owner control pos ss stop := by
  induction c with
  | @last control pos _ _ _ _ _ _ w h he =>
    obtain ⟨front, rfl, rfl⟩ := w.follows
    obtain ⟨-, -, -, hstart, -⟩ := Region.next_place h
    rw [← hr.after.slice] at h
    rw [Text.before_append]
    cases he with
    | terminator => exact .last (s := ⟨control, pos, front⟩) h hstart
  | @more control pos _ _ _ _ _ _ _ _ _ _ w h he c ih =>
    obtain ⟨front, rfl, rfl⟩ := w.follows
    obtain ⟨mid, rfl, -, hstart, hstop, -⟩ := Region.next_place h
    have hrest := hr.after.after
    rw [← hstop, he.stop_eq] at hrest
    rw [← hr.after.slice] at h
    rw [Text.before_append]
    cases he with
    | control => exact .more (s := ⟨control, pos, front⟩) h hstart (ih hrest)

/-- A scan of a section on its own meets what the search for the end of the body met in it. -/
theorem rescan (c : Chain reg owner words control pos cs ss stop left) (hr : Text.Reads src limit pos cs) :
    ∀ s ∈ ss, Text.slice src s.start s.stop = s.chars ∧ ∃ ms,
      Walk reg s.start (Text.slice src s.start limit) ms s.stop (Text.slice src s.stop limit) ∧
      Walk reg s.start s.chars ms s.stop [] := by
  induction c with
  | @last control pos _ _ start _ ms _ w h he =>
    obtain ⟨front, rfl, rfl⟩ := w.follows
    rw [Text.before_append]
    intro s hs
    obtain rfl := List.mem_singleton.1 hs
    refine ⟨hr.piece.slice, ms, ?_, w.front (.inl rfl)⟩
    rwa [hr.slice, Stretch.stop, hr.after.slice]
  | @more control pos _ _ _ start _ _ ms _ _ _ w h he c ih =>
    obtain ⟨front, rfl, rfl⟩ := w.follows
    obtain ⟨mid, rfl, -, -, hstop, -⟩ := Region.next_place h
    have hrest := hr.after.after
    rw [← hstop, he.stop_eq] at hrest
    rw [Text.before_append]
    intro s hs
    rcases List.mem_cons.1 hs with rfl | hs
    · refine ⟨hr.piece.slice, ms, ?_, w.front (.inl rfl)⟩
      rwa [hr.slice, Stretch.stop, hr.after.slice]
    · exact ih hrest s hs

end Chain

/-- Boundary search and reading agree. The sections of a nested body leave no gap between its tag and its
terminator, and a section read on its own ends where it should, without a fault, a terminator or a tag that
is not registered; it meets the regions and bodies that the search met with its larger limit. -/
theorem nested_sections_reread (reg : Registry α) (d : Directive α) (src : List Char) (tag : Tag) (limit : Nat)
    (body : Extent) (hd : reg.get? tag.name = some d) (hb : d.body tag.args = .nested)
    (h : FoundBody.within reg src tag limit = .ok (some body)) :
    Adjoining src limit tag none tag.span.stop body.sections body.stop ∧ body.stop ≤ limit ∧
    ∀ s ∈ body.sections, Text.slice src s.start s.stop = s.chars ∧ ∃ ms,
      Walk reg s.start (Text.slice src s.start limit) ms s.stop (Text.slice src s.stop limit) ∧
      Walk reg s.start (Text.slice src s.start s.stop) ms s.stop [] ∧
      Node.read reg s.start (Text.slice src s.start s.stop) = ms.map (Met.node reg) := by
  obtain ⟨found?, hf, hs⟩ := exists_of_map_ok h
  obtain ⟨found, rfl, rfl⟩ := Option.map_eq_some_iff.1 hs
  obtain ⟨d', hd', ⟨hb', -⟩ | ⟨-, c⟩⟩ := FoundBody.find_iff.1 ⟨found, hf, rfl⟩
  · rw [hd] at hd'
    cases hd'
    rw [hb] at hb'
    cases hb'
  · rw [hd] at hd'
    cases hd'
    have hne : Text.slice src tag.span.stop limit ≠ [] := by
      intro h0
      have := found.shorter
      simp [h0] at this
    have hr := Text.reads_slice rfl hne
    refine ⟨c.adjoining hr, ?_, ?_⟩
    · obtain ⟨front, hcs, hstop⟩ := c.follows
      have hl := hr.le_limit
      rw [hcs, Text.byteLength_append] at hl
      have : found.extent.stop = found.stop := rfl
      omega
    · intro s hs
      obtain ⟨htext, ms, hout, hin⟩ := c.rescan hr s hs
      refine ⟨htext, ms, hout, by rwa [htext], ?_⟩
      rw [htext, hin.read_eq, Node.read]
      simp [Region.next]

/-- The first section of this conditional holds the conditional's own terminator, in a verbatim body. -/
theorem nested_sections_reread_verbatim :
    let src := "$$#if a$$x$$#literal$$$$/if$$$$/literal$$$$#else$$y$$/if$$z".toList
    let tag : Tag := ⟨"if", ⟨3, 5⟩, "a", ⟨6, 7⟩, ⟨0, 9⟩⟩
    let first : Stretch := ⟨none, 9, "x$$#literal$$$$/if$$$$/literal$$".toList⟩
    let second : Stretch := ⟨some ⟨"else", ⟨44, 48⟩, "", ⟨48, 48⟩, ⟨41, 50⟩⟩, 50, ['y']⟩
    FoundBody.within Directives.standard src tag 59 = .ok (some ⟨[first, second], 58⟩) ∧
      Adjoining src 59 tag none 9 [first, second] 58 ∧
      ∃ ms, Walk Directives.standard 9 (Text.slice src 9 59) ms 41 (Text.slice src 41 59) ∧
        Walk Directives.standard 9 (Text.slice src 9 41) ms 41 [] := by
  intro src tag first second
  have hd : Directives.standard.get? "if" = some Directive.conditional := by rfl
  have h : FoundBody.within Directives.standard src tag 59 = .ok (some ⟨[first, second], 58⟩) :=
    ok_of_toOption (by decide +kernel)
  obtain ⟨hadj, -, hsections⟩ := nested_sections_reread Directives.standard Directive.conditional src tag 59
    ⟨[first, second], 58⟩ hd rfl h
  obtain ⟨-, ms, hout, hin, -⟩ := hsections first (by simp)
  exact ⟨h, hadj, ms, hout, hin⟩

end Stencil
