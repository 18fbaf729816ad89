import Stencil.Proofs.Run.Footprint
import Stencil.Proofs.Template.Alike
/-!
Rendering changes only the variables that a template names. What the directives outside all blocks do to variables is
done to the record in which the template is rendered, and nothing else is done to the world, however the run ends.
-/
set_option autoImplicit false

namespace Stencil

/-- Code that does not differ, calls only methods that leave the world as it is, and changes variables of the
outermost context only, those it is allowed to change. -/
def Likeness.inert (allowed : Write → Prop) : Likeness :=
  { Likeness.same with method := Method.Pure, writes := fun frame x => frame = 0 ∧ allowed x }

theorem Likeness.inert_within {allowed allowed' : Write → Prop} (h : ∀ x, allowed x → allowed' x) :
    (Likeness.inert allowed).Within (.inert allowed') where
  late _ _ _ _ _ hlate := hlate
  texts htexts := htexts
  field _ hf := hf
  method _ hm := hm
  writes _ x hx := ⟨hx.1, h x hx.2⟩

/-- An engine whose host does nothing to the world, and whose resolvers build no changes of variables. -/
structure Engine.Inert (e : Engine) : Prop where
  host : e.host.Inert
  resolvers : ∀ f ∈ e.resolvers, f.Blind (.inert fun _ => False)

variable {e : Engine} {allowed : Write → Prop} {ws : List Write} {σ : List SlotUse} {w : World} {ref : Nat}
  {es : Table Value}

/-- A compiler beside itself, of which the steps change what they are allowed to. -/
def Easing.inert (he : e.Inert) (allowed : Write → Prop) (hws : ∀ x ∈ ws, allowed x) (source : String) (w : World) :
    Easing ws where
  likeness := .inert allowed
  compiler := e.compiler source w
  strict := e.options.strict
  eased := id
  late _ _ _ _ _ _ hsame := hsame rfl
  texts := trivial
  types _ _ ht := ⟨fun _ => trivial, he.host.toPure.describe ht⟩
  resolvers f hf := ⟨rfl, (he.resolvers f hf).mono (Likeness.inert_within fun _ => False.elim)⟩
  writes x hx := ⟨rfl, hws x hx⟩
  probes := false
  probes' := false
  probed := Bool.le_refl false

namespace Step

variable {h : Host} (hh : h.Inert) {d : Nat} {env : Env} (henv : env.Rooted σ (.object ref))
include hh henv

theorem Alike.edits {s s' : Step} (hs : Step.Alike (.inert allowed) σ d s s') :
    (Change.edits ref allowed).allows env.world (s.run h env).2.world :=
  ((RunRelation.editing hh (fun _ hm => hm) (fun _ _ hx => hx) σ ref).step trivial hs env henv).world

theorem AlikeAll.edits {ss ss' : List Step} (hss : Step.AlikeAll (.inert allowed) σ d ss ss') :
    (Change.edits ref allowed).allows env.world (Step.runAll h ss env).2.world :=
  ((RunRelation.editing hh (fun _ hm => hm) (fun _ _ hx => hx) σ ref).steps trivial hss env henv).world

end Step

namespace Engine

theorem Inert.block_edits (he : e.Inert) (source : String) (w : World) {r : Landing} {s : Scope} (hr : r.Holds s)
    (hs : Scope.Alike (.inert allowed) σ s s) {namespaces : List String} {tag : Tag} (htag : tag.name = "block")
    {ss : List DocSection} {step : Step} {m : Names}
    (hstep : Compile.node .standard (.directive tag ss) (e.compiler source w) ⟨s, namespaces⟩ = .ok (step, m)) :
    ∃ σ', σ <+: σ' ∧ ∀ env : Env, env.Rooted σ' (.object ref) →
      (Change.edits ref allowed).allows env.world (step.run e.host env).2.world := by
  let p : Easing [] := .inert he allowed (by simp) source w
  have hwrites : (Node.directive tag ss).writes = [] := by
    rw [Node.writes]
    simp [Tag.write?, Directives.confining, htag]
  have hnode := Compile.node_alike (p := p) (.directive tag ss) ⟨r, σ, s.shape⟩ (fun _ x hx => hwrites ▸ hx)
    ⟨s, namespaces⟩ ⟨s, namespaces⟩ ⟨⟨hs, rfl, hr⟩, rfl⟩
  rw [show Compile.nodeWith p.probes .standard _ = _ from Compile.nodeWith_false _ _] at hnode
  obtain ⟨_, -, _, ⟨σ', hσ', rfl⟩, -, halike⟩ := hnode.tracks _ hstep
  exact ⟨σ', hσ', fun env henv => Step.Alike.edits he.host henv halike⟩

/-- A pass changes the variables of the record in which a template is rendered, and nothing else. -/
theorem Inert.render_edits (he : e.Inert) (hdirectives : e.directives = .standard) (source : String)
    (href : ref < w.objects.size) (hobject : w.object ref = .record es) :
    ∃ edits : List Edit, (∀ x ∈ edits, x.write ∈ Source.writes ⟨source⟩) ∧
      (e.render source (.object ref) w).2 = w.update ref fun _ => .record (es.edited edits) := by
  have hnone : w = w.update ref fun _ => .record (es.edited []) := World.foldl_edits href hobject []
  unfold render pass
  cases ht : e.compile source ((Value.object ref).kind w) w with
  | error d => exact ⟨[], by simp, hnone⟩
  | ok t =>
    rw [← compileWith_false] at ht
    let p : Easing (Source.writes ⟨source⟩) := .inert he (· ∈ Source.writes ⟨source⟩) (fun _ hx => hx) source w
    obtain ⟨σ, t', -, -, -, -, hsteps⟩ := compile_alike (p := p) hdirectives rfl ht
    obtain ⟨edits, hedits, hworld⟩ := hsteps.edits he.host
      (.init (.object ref) t.slots { w with format := t.format })
    refine ⟨edits, hedits, ?_⟩
    dsimp only
    rw [(t.run_spec e.host (.object ref) w).2.2, hworld]
    rw [World.foldl_edits (w := (Env.init (.object ref) t.slots { w with format := t.format }).world) href hobject]
    rfl

/-- However the rendering of a template ends, it has changed variables of the record in which it is rendered, each as
a directive outside all blocks does, and nothing else. Entries that no such directive names keep their values and
their order, entries that were not removed keep their order also where they were set, and no name is new that was not
defined. A block, whatever is defined or removed in it, changes only what the fragments in force outside it change. -/
theorem render_changes_named_variables (hdirectives : e.directives = .standard) (he : e.Inert)
    (hroot : w.objects[ref]? = some (.record es)) (source : String) :
    (∃ edits : List Edit, (∀ x ∈ edits, x.write ∈ Source.writes ⟨source⟩) ∧
      (e.render source (.object ref) w).2 = w.update ref (fun _ => .record (es.edited edits)) ∧
      (∀ i, i ≠ ref → (e.render source (.object ref) w).2.object i = w.object i) ∧
      ((es.edited edits).entries.filter fun x => ∀ y ∈ Source.writes ⟨source⟩, y.name ≠ x.1) =
        (es.entries.filter fun x => ∀ y ∈ Source.writes ⟨source⟩, y.name ≠ x.1) ∧
      ((es.edited edits).names.filter fun n => n ∈ es.names ∧ ∀ x ∈ edits, x.write ≠ .unset n) =
        (es.names.filter fun n => ∀ x ∈ edits, x.write ≠ .unset n) ∧
      ∀ n ∈ (es.edited edits).names, n ∈ es.names ∨ .set n ∈ Source.writes ⟨source⟩) ∧
    ∀ (allowed : Write → Prop) (σ : List SlotUse) (r : Landing) (s : Scope) (namespaces : List String) (tag : Tag)
      (ss : List DocSection) (step : Step) (m : Names), tag.name = "block" → r.Holds s →
      Scope.Alike (.inert allowed) σ s s →
      Compile.node .standard (.directive tag ss) (e.compiler source w) ⟨s, namespaces⟩ = .ok (step, m) →
      ∃ σ', σ <+: σ' ∧ ∀ env : Env, env.Rooted σ' (.object ref) → ∃ edits : List Edit,
        (∀ x ∈ edits, allowed x.write) ∧ (step.run e.host env).2.world = edits.foldl (Edit.apply ref) env.world := by
  obtain ⟨href, -⟩ := Array.getElem?_eq_some_iff.1 hroot
  have hobject : w.object ref = .record es := by simp [World.object, Array.getD_eq_getD_getElem?, hroot]
  refine ⟨?_, fun allowed σ r s namespaces tag ss step m htag hr hs hstep =>
    he.block_edits source w hr hs htag hstep⟩
  obtain ⟨edits, hedits, hworld⟩ := he.render_edits hdirectives source href hobject
  refine ⟨edits, hedits, hworld, fun i hi => ?_, ?_, ?_, fun n hn => ?_⟩
  · rw [hworld, World.object_update_ne w _ hi]
  · refine es.filter_edited (p := fun n => ∀ y ∈ Source.writes ⟨source⟩, y.name ≠ n) fun x hx => ?_
    simpa using ⟨x.write, hedits x hx, rfl⟩
  · refine (es.filter_names_edited (p := fun n => n ∈ es.names ∧ ∀ x ∈ edits, x.write ≠ .unset n) ?_ ?_).trans
      (List.filter_congr fun n hn => by simp [hn])
    · intro x hx n hn
      simpa using fun _ => ⟨x, hx, hn⟩
    · intro n hn
      exact (of_decide_eq_true hn).1
  · rcases Table.mem_names_edited hn with hn | ⟨x, hx, hn⟩
    · exact .inl hn
    · exact .inr (hn ▸ hedits x hx)

/-- A rendering that fails at its end has set `b`, removed `d` and added `f`. The block before them, which sets `a` and
removes `b`, has done nothing to the record. -/
theorem render_changes_named_variables_failed :
    let engine : Engine := ⟨.standard, .default, [], .empty, .empty⟩
    let source := "$$#define b = \"2\"$$$$#block$$$$#define a = \"3\"$$$$#undef b$$$$a$$$$/block$$" ++
      "$$#undef d$$$$#define f = a$$$$#error \"stop\"$$"
    let es : Table Value := ⟨[("a", .text "1"), ("b", .text "1"), ("c", .text "1"), ("d", .text "1"), ("e", .text "1")]⟩
    let w : World := { World.empty with objects := #[.record es, .record es] }
    let w' := (engine.render source (.object 0) w).2
    Source.writes ⟨source⟩ = [.set "b", .unset "d", .set "f"] ∧
      (engine.render source (.object 0) w).1.toOption = none ∧
      (Value.object 0).display w' = "\x7ba: 1, b: 2, c: 1, e: 1, f: 1\x7d" ∧
      ∃ edits : List Edit, (∀ x ∈ edits, x.write ∈ Source.writes ⟨source⟩) ∧
        w' = w.update 0 (fun _ => .record (es.edited edits)) := by
  intro engine source es w w'
  have he : engine.Inert := by
    refine ⟨⟨⟨?_, ?_⟩, ?_⟩, ?_⟩ <;> simp [engine, Host.empty]
  have hroot : w.objects[0]? = some (.record es) := rfl
  refine ⟨by decide +kernel, by decide +kernel, by decide +kernel, ?_⟩
  obtain ⟨⟨edits, hedits, hworld, -⟩, -⟩ := render_changes_named_variables rfl he hroot source
  exact ⟨edits, hedits, hworld⟩

end Engine

end Stencil
