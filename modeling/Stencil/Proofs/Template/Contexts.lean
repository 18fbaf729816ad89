import Stencil.Proofs.Run.Execution
import Stencil.Proofs.Template.Alike
set_option autoImplicit false

namespace Stencil

/-- A compiler beside itself, of which the second may put a probe before every step. -/
def Easing.probing {ws : List Write} (c : Compiler) (hresolvers : ∀ f ∈ c.resolvers, f.Blind .same) (probes : Bool) :
    Easing ws where
  likeness := .same
  compiler := c
  strict := c.options.strict
  eased := id
  late _ _ _ _ _ _ hsame := hsame rfl
  texts := trivial
  types _ _ _ := ⟨fun _ => trivial, fun _ _ => trivial⟩
  resolvers f hf := ⟨rfl, hresolvers f hf⟩
  writes _ _ := trivial
  probes := probes
  probes' := true
  probed _ := rfl

theorem Template.run_same {σ : List SlotUse} {t t' : Template} (hsteps : Step.AlikeAll .same σ 1 t.body t'.body)
    (hslots : t'.slots = t.slots) (hformat : t'.format = t.format) (h : Host) (context : Value) (w : World) :
    t'.run h context w = t.run h context w := by
  unfold run
  rw [hslots, hformat, (RunRelation.same h σ).steps trivial hsteps]

namespace Engine

/-- Whatever part of a template runs, the contexts and slots it names are there, and it restores its environment
however it ends. Probes before all steps of the template change no run of it, and each is run with as many
contexts as there were frames around the step after it. -/
theorem frames_mirror_contexts {e : Engine} (hdirectives : e.directives = .standard)
    (hresolvers : ∀ f ∈ e.resolvers, f.Blind .same) {source : String} {kind : Kind} {w : World} {t : Template}
    (ht : e.compile source kind w = .ok t) :
    (∀ h context w' p env, t.Reaches h context w' p env →
      (∀ n, p = .code (.context n) → n < env.depth) ∧ (∀ n ∈ p.slots, n < t.slots) ∧ env.slots.size = t.slots ∧
        env.Restored (p.run h env).2) ∧
    ∃ t', e.compileWith true source kind w = .ok t' ∧
      (∀ h context w', t'.run h context w' = t.run h context w') ∧
      ∀ h context w' depth env, t'.Reaches h context w' (.step (.probe depth)) env → env.depth = depth := by
  rw [← compileWith_false] at ht
  obtain ⟨σ, t', ht', hslots, hslots', hformat, hsteps⟩ :=
    compile_alike (p := .probing (e.compiler source w) hresolvers false) hdirectives rfl ht
  refine ⟨fun h context w' p env hp => ?_, t', ht', ?_, fun h context w' depth env hp => ?_⟩
  · obtain ⟨d, hplaced, hfits⟩ := hp.placed hslots ⟨_, hsteps⟩
    refine ⟨?_, ?_, hfits.slots.trans hslots.symm, (hplaced.keeps h env hfits).2⟩
    · rintro n rfl
      rw [hfits.depth]
      exact hplaced.context_lt
    · rw [hslots]
      exact hplaced.slot_lt
  · exact Template.run_same hsteps (hslots'.trans hslots.symm) hformat
  · -- The probes stand in the second template only, so it is compared once more, with itself.
    obtain ⟨σ', t'', ht'', hslots'', -, -, hsteps'⟩ :=
      compile_alike (p := .probing (e.compiler source w) hresolvers true) hdirectives rfl ht'
    obtain ⟨d, hplaced, hfits⟩ := hp.placed hslots'' ⟨_, hsteps'⟩
    exact hfits.depth.trans hplaced.probe_eq.symm

/-- A fragment that names a context outside its definition is called in a let within a loop. -/
theorem frames_mirror_contexts_fragment :
    let self : Resolver := fun r => .ok (if r.name = "self" then some r.receiver else none)
    let engine : Engine := ⟨.standard, .default, [self], .empty, .empty⟩
    let source := "$$#define mark(x)$$[$$x$$$$$1.sep$$]$$/define$$" ++
      "$$#each people$$$$#let q = self.name$$$$mark(q)$$$$/let$$$$/each$$"
    let person (name : String) := Object.record ⟨[("name", .text name)]⟩
    let w : World := { World.empty with
      objects := #[.record ⟨[("people", .list [.object 1, .object 2]), ("sep", .text ";")]⟩, person "a", person "b"] }
    ∃ t, engine.compile source .any w = .ok t ∧ (t.run .empty (.object 0) w).out = "[a;][b;]" ∧
      (∀ h context w' p env, t.Reaches h context w' p env →
        (∀ n, p = .code (.context n) → n < env.depth) ∧ (∀ n ∈ p.slots, n < t.slots) ∧ env.slots.size = t.slots ∧
          env.Restored (p.run h env).2) ∧
      ∃ t', engine.compileWith true source .any w = .ok t' ∧
        (∀ h context w', t'.run h context w' = t.run h context w') ∧
        ∀ h context w' depth env, t'.Reaches h context w' (.step (.probe depth)) env → env.depth = depth := by
  intro self engine source person w
  have hself : self.Blind .same := by
    intro l _ σ d r t ht
    unfold self
    dsimp only
    split
    · exact .ok (.some ht)
    · exact .ok .none
  have hrun : (engine.compile source .any w).toOption.map (fun t => (t.run .empty (.object 0) w).out) =
      some "[a;][b;]" := by decide +kernel
  obtain ⟨t, ht, hout⟩ := Option.map_eq_some_iff.1 hrun
  have ht : engine.compile source .any w = .ok t := ok_of_toOption ht
  exact ⟨t, ht, hout, frames_mirror_contexts rfl (List.forall_mem_singleton.2 hself) ht⟩

end Engine

end Stencil
