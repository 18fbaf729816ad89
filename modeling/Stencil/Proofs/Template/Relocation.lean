import Stencil.Proofs.Template.Alike
import Stencil.Proofs.Typing.Relocation
set_option autoImplicit false

namespace Stencil

/-- A template that is compiled alone, and further on in another source, after slots were given out. -/
structure Move where
  compiler : Compiler
  source : Source
  offset : Nat
  slots : Nat
  shown : ∀ s : Span, s.Fits compiler.source.chars → source.snippet (s.shift offset) = compiler.source.snippet s
  steady : ∀ f ∈ compiler.resolvers, ∀ r,
    Carries (Option.map (Typed.relocate (· + slots))) (f r) (f (r.relocate (· + slots) offset))

namespace Move

def other (p : Move) : Compiler := { p.compiler with source := p.source }

def place (p : Move) (n : Nat) : Nat := n + p.slots

end Move

def Names.relocate (ρ : Nat → Nat) (n : Names) : Names := ⟨n.scope.relocate ρ, n.namespaces⟩

variable {p : Move}

theorem Setting.steady_of {s : Setting} (h : s.resolvers = p.compiler.resolvers) : s.Steady p.place p.offset := by
  intro f hf
  rw [h] at hf
  exact p.steady f hf

theorem Binding.akin_relocate (ρ : Nat → Nat) (b : Binding) : b.Akin (b.relocate ρ) := by
  cases b with
  | slot n kind origin => exact .slot ..
  | «variable» i name kind => exact .ofVariable ..
  | fragment f => exact .fragment ..
  | hidden => exact .hidden

theorem Body.ofSteps_relocate (ρ : Nat → Nat) (ss : List Step) :
    Body.ofSteps (Step.relocateAll ρ ss) = Step.relocateAll ρ (Body.ofSteps ss) := by
  rw [Step.relocateAll_eq_map, Step.relocateAll_eq_map, ofSteps, ofSteps, List.filter_map]
  congr 2
  funext s
  cases s <;> simp [Step.relocate]

namespace Move

/-- What is made elsewhere is what is made alone, with its slots elsewhere. -/
def tandem (p : Move) : Tandem where
  first := p.compiler
  other := p.other
  offset := p.offset
  sited := True
  Stage := Unit
  After _ _ := True
  enter _ _ _ := ()
  landing _ := .block
  admits _ := True
  permits _ _ := True
  free _ _ := True
  own _ _ := True
  code _ _ c c' := c' = c.relocate p.place
  slots _ _ ns ns' := ns' = ns.map p.place
  step _ s s' := s' = s.relocate p.place
  steps _ ss ss' := ss' = Step.relocateAll p.place ss
  scopes _ s s' := s' = s.relocate p.place
  binds _ b b' := b' = b.relocate p.place
  value _ _ n n' := n' = p.place n
  contexts _ n n' := n' = p.place n

theorem allocate {s s' : Scope} (hs : s' = s.relocate p.place) :
    s'.allocate.2 = s.allocate.2.relocate p.place ∧ s'.slots = p.place s.slots := by
  obtain rfl := hs
  have hnext : p.place s.slots + 1 = p.place (s.slots + 1) := Nat.add_right_comm _ _ _
  exact ⟨congrArg (Scope.mk _ _) hnext, rfl⟩

theorem lawful (p : Move) : p.tandem.Lawful where
  context _ := rfl
  message _ _ := rfl
  toBool := by
    rintro w k c _ rfl
    rfl
  text _ _ := rfl
  emit := by
    rintro w k c _ rfl
    rfl
  choose := by
    rintro w k c _ yes _ no _ rfl rfl rfl
    rfl
  each := by
    rintro w k kind c _ body _ fallback _ rfl - rfl rfl
    rfl
  inside := by
    rintro w kind c _ body _ rfl rfl
    rfl
  lets := by
    rintro w kind slots _ ts ts' body _ - rfl hts rfl
    have hcodes : List.Forall₂ (fun c c' => c' = c.relocate p.place) (ts.map (·.code)) (ts'.map (·.code)) := by
      rw [List.forall₂_map_left_iff, List.forall₂_map_right_iff]
      exact hts.imp fun _ _ ht => ht.2
    rw [Code.eq_relocateAll hcodes]
    rfl
  assert := by
    rintro w k l c _ m _ rfl rfl
    rfl
  raise _ _ := rfl
  raiseText := by
    rintro w body _ rfl
    rfl
  rendered := by
    rintro w tag ⟨compute, emit⟩ ⟨_, _⟩ - - ⟨rfl, rfl⟩
    rfl
  passCap _ _ _ := rfl
  tell _ _ _ := rfl
  refl _ := trivial
  trans _ _ := trivial
  landing_after _ := rfl
  landing_enter _ _ _ _ := rfl
  landing_block _ _ := rfl
  own_after _ h := h
  code_after _ h := h
  step_after _ h := h
  steps_after _ h := h
  inner_after _ h := h
  nil _ := rfl
  cons := by
    rintro w s _ ss _ rfl rfl
    rfl
  ofSteps := by
    rintro w ss _ rfl
    exact Body.ofSteps_relocate _ ss
  ordinary _ _ := trivial
  host := rfl
  world := rfl
  snippet h := p.shown _ (h trivial).span
  lenientPredicates := rfl
  caseSensitive := rfl
  free _ _ := trivial
  own := by
    rintro w s _ rfl
    rw [Scope.current_relocate]
    exact ⟨trivial, rfl⟩
  depth := by
    rintro w s _ rfl
    exact s.depth_relocate
  balanced _ _ _ := .inr fun _ => trivial
  declarationFrame := by
    rintro w s _ rfl
    exact s.declarationFrame_relocate
  binder? := by
    rintro w s _ i rfl
    exact s.binder?_relocate i
  letOwner? := by
    rintro w s _ cs name rfl
    exact s.letOwner?_relocate cs name
  lookup := by
    rintro w s _ cs name rfl
    rw [Scope.lookup_relocate]
    exact rel_map (fun x => ⟨rfl, x.2.akin_relocate _⟩) _
  push := by
    rintro w s _ kind binder - rfl
    exact s.push_relocate kind binder
  pop := by
    rintro w w₁ s s' t _ kind binder - - rfl
    exact ⟨(), trivial, t.pop_relocate, rfl⟩
  declare := by
    rintro w s _ b _ i name rfl rfl
    exact s.declare_relocate i name b
  remove := by
    rintro w s _ i cs name rfl
    exact s.remove_relocate i cs name
  allocateValue _ hs := ⟨(), trivial, allocate hs⟩
  allocateContexts hs := ⟨(), trivial, allocate hs⟩
  value_after _ h := h
  contexts_after _ h := h
  slots_nil _ := rfl
  slots_cons := by
    rintro w kind kinds n _ ns _ rfl rfl
    rfl
  slots_after _ h := h
  slots_leave h := h
  ofSlot := by
    rintro w kind n _ origin rfl
    rfl
  ofVariable _ _ _ _ := rfl
  ofFragment := by
    rintro w kind kinds n _ ns _ compute _ emit _ name - rfl - rfl rfl rfl
    rfl
  ofHidden _ := rfl
  setSlot := by
    rintro w kind n _ c _ rfl rfl
    rfl
  setVariable := by
    rintro w s s' tag name kind c _ - - - - rfl
    rfl
  unsetVariable _ _ _ _ := rfl
  snapshot := by
    rintro w n _ rfl
    rfl
  elaborate := by
    rintro w n ⟨_, _⟩ strict e ⟨rfl, rfl⟩ - -
    have hsteady := Setting.steady_of (p := p) (s := p.compiler.settingAt n (strict p.compiler.options.strict)) rfl
    refine (hsteady.elaborate e).meets (fun _ _ => trivial) |>.imp ?_
    rintro t _ rfl
    exact ⟨rfl, rfl⟩

end Move

end Stencil
