import Stencil.Proofs.Run.Quiet
import Stencil.Proofs.Run.Relation
set_option autoImplicit false

namespace Stencil

namespace Env

/-- An environment with so many contexts, and with a slot for every use. A slot kept for the contexts of a
definition holds as many as there were, once it holds any. -/
structure Fits (σ : List SlotUse) (d : Nat) (e : Env) : Prop where
  depth : e.depth = d
  slots : e.slots.size = σ.length
  kept : ∀ n m vs, σ[n]? = some (.contexts m) → e.slot n = .list vs → vs.length = m

/-- What is the same after a run, and what was added to the output: text at the end of the innermost buffer,
or of the output itself when no buffer is open. -/
structure Restored (e e' : Env) : Prop where
  contexts : e'.contexts = e.contexts
  output : ∃ text, e'.captures = (e.write text).captures ∧ e'.out = (e.write text).out
  slots : e'.slots.size = e.slots.size

variable {σ : List SlotUse} {d : Nat} {e e' e'' : Env}

theorem write_empty (e : Env) : e.write "" = e := by
  obtain ⟨contexts, slots, out, captures, passCap, world⟩ := e
  cases captures with
  | nil => simp [write]
  | cons b bs => simp [write]

theorem write_write (e : Env) (s t : String) : (e.write s).write t = e.write (s ++ t) := by
  obtain ⟨contexts, slots, out, captures, passCap, world⟩ := e
  cases captures with
  | nil => simp [write, String.append_assoc]
  | cons b bs => simp [write, String.append_assoc]

theorem write_congr (hcaptures : e'.captures = e.captures) (hout : e'.out = e.out) (text : String) :
    (e'.write text).captures = (e.write text).captures ∧ (e'.write text).out = (e.write text).out := by
  unfold write
  rw [hcaptures]
  split
  · exact ⟨rfl, hout⟩
  · rw [hout]
    exact ⟨rfl, rfl⟩

theorem size_setSlot {n : Nat} (h : n < e.slots.size) (v : Value) : (e.setSlot n v).slots.size = e.slots.size := by
  simp [setSlot, h]

namespace Restored

theorem of_same (hcontexts : e'.contexts = e.contexts) (hcaptures : e'.captures = e.captures)
    (hout : e'.out = e.out) (hslots : e'.slots.size = e.slots.size) : Restored e e' :=
  ⟨hcontexts, ⟨"", by rw [write_empty, hcaptures], by rw [write_empty, hout]⟩, hslots⟩

theorem refl (e : Env) : Restored e e := of_same rfl rfl rfl rfl

theorem trans (h : Restored e e') (h' : Restored e' e'') : Restored e e'' := by
  obtain ⟨s, hcaptures, hout⟩ := h.output
  obtain ⟨t, hcaptures', hout'⟩ := h'.output
  obtain ⟨hcaptures'', hout''⟩ := write_congr hcaptures hout t
  rw [write_write] at hcaptures'' hout''
  exact ⟨h'.contexts.trans h.contexts, ⟨s ++ t, hcaptures'.trans hcaptures'', hout'.trans hout''⟩,
    h'.slots.trans h.slots⟩

theorem within {cs : List Value} (h : Restored { e with contexts := cs } e') :
    Restored e { e' with contexts := e.contexts } := by
  obtain ⟨text, hcaptures, hout⟩ := h.output
  have hwrite : (Env.write { e with contexts := cs } text).captures = (e.write text).captures ∧
      (Env.write { e with contexts := cs } text).out = (e.write text).out :=
    write_congr (by rfl) (by rfl) text
  obtain ⟨hcaptures', hout'⟩ := hwrite
  exact ⟨rfl, ⟨text, hcaptures.trans hcaptures', hout.trans hout'⟩, h.slots⟩

end Restored

namespace Fits

theorem init (context : Value) {slots : Nat} (hslots : slots = σ.length) (w : World) :
    (Env.init context slots w).Fits σ 1 := by
  refine ⟨rfl, ?_, fun n m vs _ hvs => ?_⟩
  · simp [Env.init, hslots]
  · rw [slot_init] at hvs
    cases hvs

theorem of_same (h : e.Fits σ d) (hcontexts : e'.contexts = e.contexts) (hslots : e'.slots = e.slots) :
    e'.Fits σ d := by
  refine ⟨?_, ?_, ?_⟩
  · exact (congrArg List.length hcontexts).trans h.depth
  · rw [hslots]
    exact h.slots
  · unfold slot
    rw [hslots]
    exact h.kept

theorem withContexts (h : e.Fits σ d) (vs : List Value) : ({ e with contexts := vs } : Env).Fits σ vs.length :=
  ⟨rfl, h.slots, h.kept⟩

theorem slot_lt (h : e.Fits σ d) {n : Nat} {u : SlotUse} (hn : σ[n]? = some u) : n < e.slots.size :=
  h.slots ▸ (List.getElem?_eq_some_iff.1 hn).1

theorem setSlot (h : e.Fits σ d) {n : Nat} (hn : σ[n]? = some .value) (v : Value) : (e.setSlot n v).Fits σ d := by
  refine ⟨h.depth, (size_setSlot (h.slot_lt hn) v).trans h.slots, fun m k vs hm hvs => ?_⟩
  have hne : n ≠ m := by
    rintro rfl
    rw [hn] at hm
    cases hm
  rw [slot_setSlot_ne e hne] at hvs
  exact h.kept m k vs hm hvs

theorem setSlots (h : e.Fits σ d) {slots : List Nat} (hslots : ∀ n ∈ slots, σ[n]? = some .value)
    (vs : List Value) : (e.setSlots slots vs).Fits σ d ∧ e.Restored (e.setSlots slots vs) := by
  induction slots generalizing e vs with
  | nil => exact ⟨h, .refl e⟩
  | cons n slots ih =>
    obtain ⟨hn, hslots⟩ := List.forall_mem_cons.1 hslots
    cases vs with
    | nil => exact ⟨h, .refl e⟩
    | cons v vs =>
      obtain ⟨hfits, hrestored⟩ := ih (h.setSlot hn v) hslots vs
      have hset : e.Restored (e.setSlot n v) := .of_same rfl rfl rfl (size_setSlot (h.slot_lt hn) v)
      exact ⟨hfits, hset.trans hrestored⟩

theorem keepContexts (h : e.Fits σ d) {n : Nat} (hn : σ[n]? = some (.contexts d)) :
    (e.setSlot n (.list e.snapshot)).Fits σ d := by
  refine ⟨h.depth, (size_setSlot (h.slot_lt hn) _).trans h.slots, fun m k vs hm hvs => ?_⟩
  by_cases hnm : n = m
  · subst hnm
    rw [slot_setSlot] at hvs
    cases hvs
    rw [hn] at hm
    cases hm
    exact (List.length_reverse).trans h.depth
  · rw [slot_setSlot_ne e hnm] at hvs
    exact h.kept m k vs hm hvs

end Fits

end Env

/-- A run that restores every environment that fits, however it ends. -/
def Flow.Keeps {α : Type} (σ : List SlotUse) (d : Nat) (x : Flow α) : Prop :=
  ∀ e, e.Fits σ d → (x e).2.Fits σ d ∧ e.Restored (x e).2

namespace Flow.Keeps

variable {α β : Type} {σ : List SlotUse} {d : Nat} {x : Flow α}

theorem of_quiet (h : Flow.Quiet x) : Keeps σ d x := by
  intro e he
  obtain ⟨w, hw⟩ := h e
  rw [hw]
  exact ⟨he.of_same rfl rfl, .of_same rfl rfl rfl rfl⟩

theorem bind {f : α → Flow β} (hx : Keeps σ d x) (hf : ∀ a, Keeps σ d (f a)) : Keeps σ d (x >>= f) := by
  intro e he
  obtain ⟨hfits, hrestored⟩ := hx e he
  rw [bind_apply]
  cases hr : x e with
  | mk r e₁ =>
    rw [hr] at hfits hrestored
    cases r with
    | error r => exact ⟨hfits, hrestored⟩
    | ok a =>
      obtain ⟨hfits', hrestored'⟩ := hf a e₁ hfits
      exact ⟨hfits', hrestored.trans hrestored'⟩

theorem write (s : String) : Keeps σ d (Flow.write s) := by
  intro e he
  have hcontexts := e.contexts_write s
  have hslots := e.slots_write s
  exact ⟨he.of_same hcontexts hslots, hcontexts, ⟨s, rfl, rfl⟩, congrArg Array.size hslots⟩

theorem withContext (v : Value) (hx : Keeps σ (d + 1) x) : Keeps σ d (Flow.withContext v x) := by
  intro e he
  have hinner : ({ e with contexts := v :: e.contexts } : Env).Fits σ (d + 1) := by
    have h := he.withContexts (v :: e.contexts)
    rwa [List.length_cons, show e.contexts.length = d from he.depth] at h
  obtain ⟨hfits, hrestored⟩ := hx _ hinner
  unfold Flow.withContext
  cases hr : x { e with contexts := v :: e.contexts } with
  | mk r e₁ =>
    rw [hr] at hfits hrestored
    have hcontexts : e₁.contexts.drop 1 = e.contexts := by
      rw [hrestored.contexts]
      rfl
    dsimp only
    rw [hcontexts]
    exact ⟨he.depth ▸ hfits.withContexts e.contexts, hrestored.within⟩

theorem withContexts {m : Nat} {vs : List Value} (hvs : vs.length = m) (hx : Keeps σ m x) :
    Keeps σ d (Flow.withContexts vs x) := by
  intro e he
  have hinner : ({ e with contexts := vs.reverse } : Env).Fits σ m := by
    have h := he.withContexts vs.reverse
    rwa [List.length_reverse, hvs] at h
  obtain ⟨hfits, hrestored⟩ := hx _ hinner
  unfold Flow.withContexts
  cases hr : x { e with contexts := vs.reverse } with
  | mk r e₁ =>
    rw [hr] at hfits hrestored
    exact ⟨he.depth ▸ hfits.withContexts e.contexts, hrestored.within⟩

theorem capture {x : Flow Unit} (hx : Keeps σ d x) : Keeps σ d (Flow.capture x) := by
  intro e he
  have hinner : ({ e with captures := "" :: e.captures } : Env).Fits σ d := he.of_same rfl rfl
  obtain ⟨hfits, hrestored⟩ := hx _ hinner
  unfold Flow.capture
  cases hr : x { e with captures := "" :: e.captures } with
  | mk r e₁ =>
    rw [hr] at hfits hrestored
    obtain ⟨text, hcaptures, hout⟩ := hrestored.output
    have hrest : e₁.captures.drop 1 = e.captures := by
      rw [hcaptures]
      rfl
    exact ⟨hfits.of_same rfl rfl, .of_same hrestored.contexts hrest hout hrestored.slots⟩

end Flow.Keeps

/-- A pragma does to the world what the host does with its text, which may also stop the run. -/
theorem Step.run_pragma {h : Host} {listen : String → World → Bool × World} (hlisten : h.pragma = some listen)
    (text : String) (e : Env) :
    (Step.pragma text).run h e = (if (listen text e.world).1 then .error .stop else .ok (),
      { e with world := (listen text e.world).2 }) := by
  unfold Step.run
  rw [hlisten]
  show (if (listen text e.world).1 then throw .stop else pure () : Flow Unit) { e with world := _ } = _
  split <;> rfl

theorem Step.run_pragma_unheard {h : Host} (hlisten : h.pragma = none) (text : String) (e : Env) :
    (Step.pragma text).run h e = (.ok (), e) := by
  unfold Step.run
  rw [hlisten]
  rfl

theorem Flow.Quiet.pragma (h : Host) (text : String) : Quiet ((Step.pragma text).run h) := by
  intro e
  cases hlisten : h.pragma with
  | none => exact ⟨e.world, by rw [Step.run_pragma_unheard hlisten]⟩
  | some listen => exact ⟨(listen text e.world).2, by rw [Step.run_pragma hlisten]⟩

def RunRelation.keeping (h : Host) (l : Likeness) (σ : List SlotUse) : RunRelation h l σ where
  rel d x _ := Flow.Keeps σ d x
  held m vs := vs.length = m
  value a := .of_quiet (.value a)
  seq hx hf := hx.bind hf
  halt r _ := .of_quiet (.halt r)
  reading hf := fun e he => hf e e he
  look f := .of_quiet (.look f)
  method v vs _ := .of_quiet (.act _)
  callValue v name vs := .of_quiet (.act _)
  late := by
    intro d c name cs strict strict' _
    cases strict with
    | true => exact .of_quiet (.halt _)
    | false => exact .of_quiet (.value _)
  invoke v vs _ := .of_quiet (.lenient _ _)
  fill _ vs _ hslots := fun e he => he.setSlots hslots vs
  keep _ hn := fun e he => ⟨he.keepContexts hn, .of_same rfl rfl rfl (Env.size_setSlot (he.slot_lt hn) _)⟩
  kept hn hf := fun e he => hf (e.slot _) (fun vs hv => he.kept _ _ vs hn hv) e he
  edit _ _ := .of_quiet fun e => e.edit_world _ _
  pragma text _ := .of_quiet (.pragma h text)
  passCap n _ := fun e he => ⟨he.of_same rfl rfl, .of_same rfl rfl rfl rfl⟩
  write s _ := .write s
  inContext v _ _ _ h := h.withContext v
  inContexts _ hvs h := .withContexts hvs h
  capture _ h := .capture h

/-- Plain code runs no steps, so what may happen to the world is what the host may do. -/
def RunRelation.modest {h : Host} {l : Likeness} {σ : List SlotUse} {k : Change} (hl : l.Modest σ k h) :
    RunRelation h l σ where
  rel _ x _ := Flow.Modest k x
  whole := False
  ofTexts := hl.texts
  ofContexts := hl.slots _ _
  held _ _ := True
  value a := .value a
  seq hx hf := hx.bind hf
  halt _ h := h.elim
  reading := .reading
  look := .look
  method v vs hm := .act (hl.methods _ hm v vs)
  callValue v name vs := .act (hl.host.callValue v name vs)
  late := by
    intro d c name cs strict strict' _
    cases strict with
    | true => exact .fail _
    | false => exact .value _
  invoke v vs _ := .lenient _ (hl.host.invoke _ v _ vs)
  fill _ _ h := h.elim
  keep h := h.elim
  kept hn := (hl.slots _ _ hn).elim
  edit h := h.elim
  pragma _ h := h.elim
  passCap _ h := h.elim
  write _ h := h.elim
  inContext _ _ _ h := h.elim
  inContexts h := h.elim
  capture h := h.elim

theorem Code.quiet_run (h : Host) {l : Likeness} {σ : List SlotUse} (hl : l.Plain σ) {d : Nat} {c c' : Code}
    (hc : Code.Alike l σ d c c') : Flow.Quiet (c.run h) := by
  have hany {α : Type} (a : Act α) : a.Modest .any := fun _ => trivial
  exact ((RunRelation.modest
    ⟨hl, ⟨fun _ _ _ _ => hany _, fun _ _ _ => hany _⟩, fun _ _ _ _ => hany _⟩).code hc).quiet

end Stencil
