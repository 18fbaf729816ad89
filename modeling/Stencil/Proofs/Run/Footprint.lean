import Stencil.Proofs.Run.Calm
/-!
What a run does to the world where the host does nothing to it: it changes variables of the outermost context, and of
those only the ones that its steps are allowed to change. However deep a step stands, and though a fragment runs in
the contexts of its definition, the outermost context is always the same.
-/
set_option autoImplicit false

namespace Stencil

/-- A host that leaves the world as it is, also when it is told of a pragma. -/
structure Host.Inert (h : Host) : Prop extends h.Pure where
  pragma : ∀ listen, h.pragma = some listen → ∀ text w, (listen text w).2 = w

def Change.edits (ref : Nat) (allowed : Write → Prop) : Change where
  allows w w' := ∃ edits : List Edit, (∀ x ∈ edits, allowed x.write) ∧ w' = edits.foldl (Edit.apply ref) w
  refl w := ⟨[], by simp⟩
  trans := by
    rintro u v w ⟨xs, hxs, rfl⟩ ⟨ys, hys, rfl⟩
    exact ⟨xs ++ ys, List.forall_mem_append.2 ⟨hxs, hys⟩, List.foldl_append.symm⟩

variable {σ : List SlotUse} {k : Change} {root : Value} {e e' e'' : Env}

namespace Env

/-- The outermost context is a given one, also among the contexts that definitions have kept. -/
structure Rooted (σ : List SlotUse) (root : Value) (e : Env) : Prop where
  outermost : e.contexts.getLast? = some root
  kept : ∀ n m vs, σ[n]? = some (.contexts m) → e.slot n = .list vs → vs.head? = some root

namespace Rooted

theorem init (root : Value) (slots : Nat) (w : World) : (Env.init root slots w).Rooted σ root := by
  refine ⟨rfl, fun n m vs _ hvs => ?_⟩
  rw [slot_init] at hvs
  cases hvs

theorem frame_zero (h : e.Rooted σ root) : e.frame 0 = root := by
  simp [frame, List.getD_eq_getElem?_getD, ← List.head?_eq_getElem?, h.outermost]

theorem of_same (h : e.Rooted σ root) (hcontexts : e'.contexts = e.contexts) (hslots : e'.slots = e.slots) :
    e'.Rooted σ root := by
  refine ⟨hcontexts ▸ h.outermost, ?_⟩
  unfold slot
  rw [hslots]
  exact h.kept

theorem withContexts (h : e.Rooted σ root) {vs : List Value} (hvs : vs.getLast? = some root) :
    ({ e with contexts := vs } : Env).Rooted σ root := ⟨hvs, h.kept⟩

theorem setSlot (h : e.Rooted σ root) {n : Nat} (hn : σ[n]? = some .value) (v : Value) :
    (e.setSlot n v).Rooted σ root := by
  refine ⟨h.outermost, fun m d vs hm hvs => ?_⟩
  have hne : n ≠ m := by
    intro heq
    rw [heq, hm] at hn
    cases hn
  rw [slot_setSlot_ne e hne] at hvs
  exact h.kept m d vs hm hvs

theorem keepContexts (h : e.Rooted σ root) (n : Nat) : (e.setSlot n (.list e.snapshot)).Rooted σ root := by
  refine ⟨h.outermost, fun m d vs hm hvs => ?_⟩
  by_cases hnm : n = m
  · rw [hnm, slot_setSlot] at hvs
    cases hvs
    simp [snapshot, h.outermost]
  · rw [slot_setSlot_ne e hnm] at hvs
    exact h.kept m d vs hm hvs

end Rooted

/-- What became of an environment: the contexts are as they were, and no more was done to the world than is
allowed. -/
structure Edited (σ : List SlotUse) (k : Change) (root : Value) (e e' : Env) : Prop where
  rooted : e'.Rooted σ root
  contexts : e'.contexts = e.contexts
  world : k.allows e.world e'.world

namespace Edited

theorem refl (h : e.Rooted σ root) : e.Edited σ k root e := ⟨h, rfl, k.refl _⟩

theorem trans (h : e.Edited σ k root e') (h' : e'.Edited σ k root e'') : e.Edited σ k root e'' :=
  ⟨h'.rooted, h'.contexts.trans h.contexts, k.trans h.world h'.world⟩

theorem of_same (h : e.Rooted σ root) (hcontexts : e'.contexts = e.contexts) (hslots : e'.slots = e.slots)
    (hworld : e'.world = e.world) : e.Edited σ k root e' :=
  ⟨h.of_same hcontexts hslots, hcontexts, hworld ▸ k.refl _⟩

theorem setSlots (h : e.Rooted σ root) {slots : List Nat} (hslots : ∀ n ∈ slots, σ[n]? = some .value)
    (vs : List Value) : e.Edited σ k root (e.setSlots slots vs) := by
  induction slots generalizing e vs with
  | nil => exact .refl h
  | cons n slots ih =>
    obtain ⟨hn, hslots⟩ := List.forall_mem_cons.1 hslots
    cases vs with
    | nil => exact .refl h
    | cons v vs =>
      have hset : e.Edited σ k root (e.setSlot n v) := ⟨h.setSlot hn v, rfl, k.refl _⟩
      exact hset.trans (ih hset.rooted hslots vs)

theorem within {vs : List Value} (h : e.Rooted σ root) (h' : Edited σ k root { e with contexts := vs } e') :
    e.Edited σ k root { e' with contexts := e.contexts } :=
  ⟨h'.rooted.withContexts h.outermost, rfl, h'.world⟩

end Edited

end Env

/-- A run that does no more to the world than is allowed, however it ends. -/
def Flow.Edits {α : Type} (σ : List SlotUse) (k : Change) (root : Value) (x : Flow α) : Prop :=
  ∀ e : Env, e.Rooted σ root → e.Edited σ k root (x e).2

namespace Flow.Edits

variable {α β : Type} {x : Flow α}

theorem of_still (h : ∀ e, (x e).2 = e) : Edits σ k root x := by
  intro e he
  rw [h e]
  exact .refl he

theorem of_modest (h : Modest .none x) : Edits σ k root x := by
  refine of_still fun e => ?_
  obtain ⟨-, w, hw, hrun⟩ := h e
  obtain rfl : e.world = w := hw
  exact hrun

theorem bind {f : α → Flow β} (hx : Edits σ k root x) (hf : ∀ a, Edits σ k root (f a)) :
    Edits σ k root (x >>= f) := by
  intro e he
  have hfirst := hx e he
  rw [bind_apply]
  cases hr : x e with
  | mk r e₁ =>
    rw [hr] at hfirst
    cases r with
    | error r => exact hfirst
    | ok a => exact hfirst.trans (hf a e₁ hfirst.rooted)

theorem write (s : String) : Edits σ k root (Flow.write s) := by
  intro e he
  exact .of_same he (e.contexts_write s) (e.slots_write s) (e.world_write s)

theorem withContext (v : Value) (hx : Edits σ k root x) : Edits σ k root (Flow.withContext v x) := by
  intro e he
  have hinner := hx _ (he.withContexts (show (v :: e.contexts).getLast? = some root by
    simp [List.getLast?_cons, he.outermost]))
  unfold Flow.withContext
  cases hr : x { e with contexts := v :: e.contexts } with
  | mk r e₁ =>
    rw [hr] at hinner
    dsimp only
    rw [show e₁.contexts.drop 1 = e.contexts by rw [hinner.contexts]; rfl]
    exact .within he hinner

theorem withContexts {vs : List Value} (hvs : vs.head? = some root) (hx : Edits σ k root x) :
    Edits σ k root (Flow.withContexts vs x) := by
  intro e he
  have hinner := hx _ (he.withContexts (show vs.reverse.getLast? = some root by simp [hvs]))
  unfold Flow.withContexts
  cases hr : x { e with contexts := vs.reverse } with
  | mk r e₁ =>
    rw [hr] at hinner
    exact .within he hinner

theorem capture {x : Flow Unit} (hx : Edits σ k root x) : Edits σ k root (Flow.capture x) := by
  intro e he
  have hinner := hx { e with captures := "" :: e.captures } (he.of_same rfl rfl)
  unfold Flow.capture
  cases hr : x { e with captures := "" :: e.captures } with
  | mk r e₁ =>
    rw [hr] at hinner
    exact ⟨hinner.rooted.of_same rfl rfl, hinner.contexts, hinner.world⟩

end Flow.Edits

def RunRelation.editing {h : Host} (hh : h.Inert) {l : Likeness} (hmethods : ∀ m, l.method m → m.Pure)
    {allowed : Write → Prop} (hwrites : ∀ frame x, l.writes frame x → frame = 0 ∧ allowed x) (σ : List SlotUse)
    (ref : Nat) : RunRelation h l σ where
  rel _ x _ := Flow.Edits σ (.edits ref allowed) (.object ref) x
  held _ vs := vs.head? = some (.object ref)
  value a := .of_modest (.value a)
  seq hx hf := hx.bind hf
  halt r _ := .of_still fun _ => rfl
  reading hf := fun e he => hf e e he
  look f := .of_modest (.look f)
  method v vs hm := .of_modest (.act (hmethods _ hm v vs))
  callValue v name vs := .of_modest (.act (hh.toPure.callValue v name vs))
  late := by
    intro d c name cs strict strict' _
    cases strict with
    | true => exact .of_modest (.fail _)
    | false => exact .of_modest (.value _)
  invoke v vs _ := .of_modest (.lenient _ (hh.toPure.invoke _ v _ vs))
  fill _ vs _ hslots := fun e he => .setSlots he hslots vs
  keep _ _ := fun e he => ⟨he.keepContexts _, rfl, Change.refl _ _⟩
  kept hn hf := fun e he => hf (e.slot _) (fun vs hv => he.kept _ _ vs hn hv) e he
  edit := by
    intro d frame x _ hx e he
    obtain ⟨rfl, hallowed⟩ := hwrites frame x.write hx
    show e.Edited _ _ _ (e.edit 0 x)
    rw [Env.edit_object he.frame_zero]
    exact ⟨he.of_same rfl rfl, rfl, [x], by simpa using hallowed, rfl⟩
  pragma text _ := .of_still fun e => by
    cases hlisten : h.pragma with
    | none => rw [Step.run_pragma_unheard hlisten]
    | some listen => rw [Step.run_pragma hlisten, hh.pragma listen hlisten]
  passCap _ _ := fun e he => .of_same he rfl rfl rfl
  write s _ := .write s
  inContext v _ _ _ hx := hx.withContext v
  inContexts _ hvs hx := .withContexts hvs hx
  capture _ hx := .capture hx

end Stencil
