import Stencil.Proofs.Template.Extension
set_option autoImplicit false

namespace Stencil

/-- An answer with every range shifted, `f` shifting those of what was found. -/
def Diagnostic.shifted {α β : Type} (k : Nat) (f : α → β) : Except Diagnostic α → Except Diagnostic β
  | .ok a => .ok (f a)
  | .error d => .error (d.shift k)

open Diagnostic (shifted)

def Tag.shift (k : Nat) (t : Tag) : Tag :=
  ⟨t.name, t.nameSpan.shift k, t.args, t.argsSpan.shift k, t.span.shift k⟩

section

variable (k : Nat) (t : Tag)

@[simp] theorem Tag.name_shift : (t.shift k).name = t.name := rfl

@[simp] theorem Tag.args_shift : (t.shift k).args = t.args := rfl

@[simp] theorem Tag.span_shift : (t.shift k).span = t.span.shift k := rfl

@[simp] theorem Tag.argsSpan_shift : (t.shift k).argsSpan = t.argsSpan.shift k := rfl

theorem Tag.map_shift_zero (t : Option Tag) : t.map (Tag.shift 0) = t := by cases t <;> rfl

@[simp] theorem Span.stop_shift (s : Span) : (s.shift k).stop = s.stop + k := rfl

@[simp] theorem Diagnostic.shift_of (f : Fault) (s : Span) : (Diagnostic.of f s).shift k = .of f (s.shift k) := rfl

end

namespace Region

def shift (k : Nat) : Region → Region
  | text s => text (s.shift k)
  | expr source s => expr source (s.shift k)
  | opening t => opening (t.shift k)
  | closing name s => closing name (s.shift k)

variable {k : Nat}

theorem spanOf_shift (pos : Nat) (cs : List Char) : spanOf (pos + k) cs = (spanOf pos cs).shift k := by
  simp only [spanOf, Span.shift, Span.mk.injEq, true_and]
  omega

theorem tagOf_shift (pos : Nat) (head : List Char) : tagOf (pos + k) head = (tagOf pos head).shift k := by
  simp only [tagOf, Tag.shift, spanOf, Span.shift, Tag.mk.injEq, Span.mk.injEq, true_and]
  split <;> omega

theorem ofTag_shift (pos : Nat) (head : List Char) : ofTag (pos + k) head = shifted k (shift k) (ofTag pos head) := by
  simp only [ofTag, tagOf_shift]
  change (if (tagOf pos head).name.isEmpty = true then _ else _) = _
  split <;> rfl

theorem ofTerminator_shift (pos : Nat) (name : List Char) :
    ofTerminator (pos + k) name = shifted k (shift k) (ofTerminator pos name) := by
  simp only [ofTerminator, shifted, shift, Span.shift, Except.ok.injEq, closing.injEq, Span.mk.injEq,
    true_and]
  omega

theorem ofExpr_shift (pos : Nat) (source : List Char) :
    ofExpr (pos + k) source = shifted k (shift k) (ofExpr pos source) := by
  unfold ofExpr
  split
  · simp only [shifted, Diagnostic.shift, Diagnostic.of, Span.shift, List.map_nil, Except.error.injEq,
      Diagnostic.mk.injEq, Span.mk.injEq, and_true, true_and]
    omega
  · simp only [shifted, shift, Span.shift, spanOf, Except.ok.injEq, expr.injEq, Span.mk.injEq, true_and]
    omega

theorem close_shift {part : RegionPart} {pos : Nat} {whole cs : List Char}
    {make make' : List Char → Except Diagnostic Region}
    (hmake : ∀ inside, make' inside = shifted k (shift k) (make inside)) :
    close part (pos + k) whole make' cs = shifted k (Prod.map (shift k) id) (close part pos whole make cs) := by
  unfold close
  cases Text.cut? marker cs with
  | none =>
    rw [spanOf_shift]
    rfl
  | some p =>
    simp only [hmake]
    cases make p.1 <;> rfl

theorem afterMarker_shift (pos : Nat) (whole cs : List Char) :
    afterMarker (pos + k) whole cs = shifted k (Prod.map (shift k) id) (afterMarker pos whole cs) := by
  unfold afterMarker
  split
  · exact close_shift (ofTag_shift pos)
  · exact close_shift (ofTerminator_shift pos)
  · exact close_shift (ofExpr_shift pos)

theorem next_shift (pos : Nat) (cs : List Char) :
    next (pos + k) cs = shifted k (Option.map (Prod.map (shift k) id)) (next pos cs) := by
  unfold next
  split
  · rfl
  · split
    · rw [spanOf_shift]
      rfl
    · rw [afterMarker_shift]
      cases afterMarker pos cs _ <;> rfl
    · rw [spanOf_shift]
      rfl

end Region

def Stretch.shift (k : Nat) (s : Stretch) : Stretch := ⟨s.control.map (Tag.shift k), s.start + k, s.chars⟩

def Extent.shift (k : Nat) (x : Extent) : Extent := ⟨x.sections.map (Stretch.shift k), x.stop + k⟩

variable {α : Type} {reg : Registry α} {k : Nat}

theorem Registry.unknown_shift (reg : Registry α) (tag : Tag) :
    reg.unknown (tag.shift k) = (reg.unknown tag).shift k := by
  unfold unknown
  rw [apply_ite (Diagnostic.shift · k)]
  rfl

namespace FoundBody

theorem verbatim_shift (tag : Tag) (cs : List Char) :
    (verbatim (tag.shift k) cs).map seen = shifted k (Prod.map (Extent.shift k) id) ((verbatim tag cs).map seen) := by
  simp only [seen_verbatim, Tag.name_shift]
  cases Text.cut? (Fault.terminator tag.name).toList cs with
  | none => rfl
  | some p =>
    obtain ⟨text, rest⟩ := p
    dsimp only
    cases Text.cut? ("$$#".toList ++ tag.name.toList) text with
    | some p =>
      simp only [shifted, Tag.span_shift, Span.stop_shift, Diagnostic.shift_of, ← Region.spanOf_shift,
        Nat.add_right_comm]
    | none => simp [shifted, Extent.shift, Stretch.shift, Nat.add_right_comm]

theorem shifted_some {m n : Nat} {x : Except Diagnostic (FoundBody m)} {y : Except Diagnostic (FoundBody n)}
    {f : Extent × List Char → Extent × List Char} (h : y.map seen = shifted k f (x.map seen)) :
    (y.map some).map (Option.map seen) = shifted k (Option.map f) ((x.map some).map (Option.map seen)) := by
  cases x with
  | error d =>
    cases y with
    | error d' => exact congrArg (Except.map some) h
    | ok b => cases h
  | ok a =>
    cases y with
    | error d' => cases h
    | ok b => exact congrArg (Except.map some) h

/-- Two searches of which the second answers as the first, with every range shifted. -/
theorem cases_of_shifted {m n : Nat} {x : Except Diagnostic (Option (FoundBody m))}
    {y : Except Diagnostic (Option (FoundBody n))}
    (h : y.map (Option.map seen) =
      shifted k (Option.map (Prod.map (Extent.shift k) id)) (x.map (Option.map seen))) :
    (∃ d, x = .error d ∧ y = .error (d.shift k)) ∨ (x = .ok none ∧ y = .ok none) ∨
      ∃ a b, x = .ok (some a) ∧ y = .ok (some b) ∧ b.extent = a.extent.shift k ∧ b.stop = a.stop + k ∧
        b.rest = a.rest := by
  cases x with
  | error d =>
    cases y with
    | error d' =>
      cases h
      exact .inl ⟨d, rfl, rfl⟩
    | ok b => cases h
  | ok a =>
    cases y with
    | error d' => cases h
    | ok b =>
      have h : b.map seen = (a.map seen).map (Prod.map (Extent.shift k) id) := Except.ok.inj h
      cases a with
      | none =>
        cases b with
        | none => exact .inr (.inl ⟨rfl, rfl⟩)
        | some b => cases h
      | some a =>
        cases b with
        | none => cases h
        | some b =>
          obtain ⟨hx, hr⟩ := Prod.mk.inj (Option.some.inj h)
          exact .inr (.inr ⟨a, b, rfl, rfl, hx, congrArg Extent.stop hx, hr⟩)

mutual

theorem find_shift (tag : Tag) (cs : List Char) :
    (find reg (tag.shift k) cs).map (Option.map seen) =
      shifted k (Option.map (Prod.map (Extent.shift k) id)) ((find reg tag cs).map (Option.map seen)) := by
  rw [find, find]
  simp only [Tag.name_shift, Tag.args_shift]
  cases reg.get? tag.name with
  | none =>
    dsimp only
    rw [Registry.unknown_shift]
    rfl
  | some d =>
    dsimp only
    cases d.body tag.args with
    | none => rfl
    | verbatim => exact shifted_some (verbatim_shift tag cs)
    | nested => exact shifted_some (readSections_shift tag d.words none tag.span.stop cs)
termination_by 3 * cs.length + 2

theorem readSections_shift (owner : Tag) (words : List String) (control : Option Tag) (pos : Nat)
    (cs : List Char) :
    (readSections reg (owner.shift k) words (control.map (Tag.shift k)) (pos + k) cs).map seen =
      shifted k (Prod.map (Extent.shift k) id) ((readSections reg owner words control pos cs).map seen) := by
  rw [readSections_step, readSections_step, boundary_shift owner words pos cs]
  cases hb : (boundary reg owner words pos cs).map Boundary.seen with
  | error d => rfl
  | ok b =>
    obtain ⟨start, next, stop, rest⟩ := b
    cases next with
    | none => rfl
    | some t =>
      have hlt : rest.length < cs.length := boundary_shorter hb
      have h := readSections_shift owner words (some t) t.span.stop rest
      simp only [shifted, Option.map_some, Tag.span_shift, Span.stop_shift] at h ⊢
      rw [h]
      cases (readSections reg owner words (some t) t.span.stop rest).map seen with
      | error d => rfl
      | ok p => simp [Extent.shift, Stretch.shift]
termination_by 3 * cs.length + 1

theorem boundary_shift (owner : Tag) (words : List String) (pos : Nat) (cs : List Char) :
    (boundary reg (owner.shift k) words (pos + k) cs).map Boundary.seen =
      shifted k (fun b => (b.1, b.2.1.map (Tag.shift k), b.2.2.1 + k, b.2.2.2))
        ((boundary reg owner words pos cs).map Boundary.seen) := by
  rw [boundary_step, boundary_step, Region.next_shift]
  cases hn : Region.next pos cs with
  | error d => rfl
  | ok r =>
    cases r with
    | none => rfl
    | some p =>
      obtain ⟨region, rest⟩ := p
      have hlt : rest.length < cs.length := Region.next_shorter hn
      simp only [shifted, Option.map_some, Prod.map, id]
      cases region with
      | text span => exact boundary_shift owner words span.stop rest
      | expr source span =>
        have h := boundary_shift owner words (span.stop + 2) rest
        rw [Nat.add_right_comm] at h
        exact h
      | opening tag =>
        simp only [Region.shift, Tag.name_shift, Tag.span_shift, Span.stop_shift]
        by_cases hc : reg.contains tag.name = true
        · simp only [hc, if_true]
          obtain ⟨d, hf, hf'⟩ | ⟨hf, hf'⟩ | ⟨a, b, hf, hf', -, hstop, hrest⟩ := cases_of_shifted (find_shift tag rest)
          · simp only [hf, hf']
          · simp only [hf, hf']
            exact boundary_shift owner words tag.span.stop rest
          · have hlt' : a.rest.length < rest.length := a.shorter
            simp only [hf, hf']
            rw [hstop, hrest]
            exact boundary_shift owner words a.stop a.rest
        · simp only [hc, if_false, Bool.false_eq_true]
          by_cases hw : words.contains tag.name = true
          · simp only [hw, if_true, Option.map_some]
          · simp only [hw, Registry.unknown_shift]
            rfl
      | closing name span =>
        simp only [Region.shift, Tag.name_shift, Span.stop_shift]
        by_cases hname : name = owner.name
        · simp only [hname, if_true, Option.map_none]
        · simp only [hname, if_false, Diagnostic.shift_of]
termination_by 3 * cs.length

end

end FoundBody

/-! ### Nodes -/

mutual

def Node.shift (k : Nat) : Node → Node
  | .text s => .text s
  | .expr source span => .expr source (span.shift k)
  | .directive tag ss => .directive (tag.shift k) (DocSection.shiftAll k ss)
  | .fault d => .fault (d.shift k)

def Node.shiftAll (k : Nat) : List Node → List Node
  | [] => []
  | nd :: ns => nd.shift k :: Node.shiftAll k ns

def DocSection.shift (k : Nat) : DocSection → DocSection
  | .mk control span text ns => .mk (control.map (Tag.shift k)) (span.shift k) text (Node.shiftAll k ns)

def DocSection.shiftAll (k : Nat) : List DocSection → List DocSection
  | [] => []
  | s :: ss => s.shift k :: DocSection.shiftAll k ss

end

namespace Node

end Node

end Stencil
