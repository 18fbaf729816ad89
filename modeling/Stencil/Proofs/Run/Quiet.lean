import Stencil.Proofs.Code.Alike
import Stencil.Proofs.Run.Flow
set_option autoImplicit false

namespace Stencil

def Flow.Quiet {α : Type} (x : Flow α) : Prop := ∀ e, ∃ w, (x e).2 = { e with world := w }

namespace Flow.Quiet

variable {α β : Type}

theorem value (a : α) : Quiet (pure a) := fun e => ⟨e.world, rfl⟩

theorem bind {x : Flow α} {f : α → Flow β} (hx : Quiet x) (hf : ∀ a, Quiet (f a)) : Quiet (x >>= f) := by
  intro e
  obtain ⟨w, hw⟩ := hx e
  rw [bind_apply]
  cases hr : x e with
  | mk r e₁ =>
    rw [hr] at hw
    obtain rfl : e₁ = { e with world := w } := hw
    cases r with
    | error r => exact ⟨w, rfl⟩
    | ok a => exact hf a { e with world := w }

theorem halt (r : Halt) : Quiet (throw r : Flow α) := fun e => ⟨e.world, rfl⟩

theorem look (f : World → Except Failure α) : Quiet (look f) := by
  intro e
  unfold Flow.look
  split <;> exact ⟨e.world, rfl⟩

theorem act (a : Act α) : Quiet (act a) := act_world a

theorem lenient (strict : Bool) (a : Act Value) : Quiet (lenient strict (Flow.act a)) := by
  intro e
  obtain ⟨w, hw⟩ := act_world a e
  refine ⟨w, ?_⟩
  unfold Flow.lenient
  split
  · next hfail =>
    rw [hfail] at hw
    split <;> exact hw
  · exact hw

end Flow.Quiet

structure Change where
  allows : World → World → Prop
  refl : ∀ w, allows w w
  trans : ∀ {u v w}, allows u v → allows v w → allows u w

namespace Change

def any : Change := ⟨fun _ _ => True, fun _ => trivial, fun _ _ => trivial⟩

def none : Change := ⟨Eq, Eq.refl, Eq.trans⟩

end Change

def Act.Modest {α : Type} (k : Change) (a : Act α) : Prop := ∀ w, k.allows w (a w).2

/-- A run that changes nothing but the world, and that no more than is allowed, however it ends; it is never
stopped. -/
def Flow.Modest {α : Type} (k : Change) (x : Flow α) : Prop :=
  ∀ e, (x e).1 ≠ .error .stop ∧ ∃ w, k.allows e.world w ∧ (x e).2 = { e with world := w }

namespace Flow.Modest

variable {α β : Type} {k : Change} {x : Flow α}

theorem quiet (h : Modest k x) : Quiet x := fun e =>
  have ⟨_, w, _, hw⟩ := h e
  ⟨w, hw⟩

theorem value (a : α) : Modest k (pure a) := fun e => ⟨nofun, e.world, k.refl _, rfl⟩

theorem fail (f : Failure) : Modest k (throw (.fail f) : Flow α) := fun e => ⟨nofun, e.world, k.refl _, rfl⟩

theorem bind {f : α → Flow β} (hx : Modest k x) (hf : ∀ a, Modest k (f a)) : Modest k (x >>= f) := by
  intro e
  obtain ⟨hstop, w, hallows, hw⟩ := hx e
  rw [bind_apply]
  cases hr : x e with
  | mk r e₁ =>
    rw [hr] at hw hstop
    obtain rfl : e₁ = { e with world := w } := hw
    cases r with
    | error r => exact ⟨fun h => hstop (by cases h; rfl), w, hallows, rfl⟩
    | ok a =>
      obtain ⟨hstop', w', hallows', hw'⟩ := hf a { e with world := w }
      exact ⟨hstop', w', k.trans hallows hallows', hw'⟩

theorem reading {f : Env → Flow α} (hf : ∀ e, Modest k (f e)) : Modest k (get >>= f) := fun e => hf e e

theorem look (f : World → Except Failure α) : Modest k (look f) := by
  intro e
  unfold Flow.look
  split <;> exact ⟨nofun, e.world, k.refl _, rfl⟩

theorem act {a : Act α} (h : a.Modest k) : Modest k (act a) := by
  intro e
  have hw := h e.world
  unfold Flow.act
  cases hr : a e.world with
  | mk r w =>
    rw [hr] at hw
    cases r <;> exact ⟨nofun, w, hw, rfl⟩

theorem lenient (strict : Bool) {a : Act Value} (h : a.Modest k) : Modest k (lenient strict (Flow.act a)) := by
  intro e
  obtain ⟨hstop, w, hallows, hw⟩ := act h e
  unfold Flow.lenient
  split
  · next hfail =>
    rw [hfail] at hw
    split <;> exact ⟨nofun, w, hallows, hw⟩
  · exact ⟨hstop, w, hallows, hw⟩

end Flow.Modest

/-- A host of which nothing that is called on a value does more to the world than is allowed. -/
structure Host.Modest (k : Change) (h : Host) : Prop where
  invoke : ∀ cs v name vs, (h.invoke cs v name vs).Modest k
  callValue : ∀ f name vs, (h.callValue f name vs).Modest k

/-- Code may neither hold the text of steps nor call a fragment, which takes a slot that is kept for contexts. -/
structure Likeness.Plain (l : Likeness) (σ : List SlotUse) : Prop where
  texts : ¬ l.texts
  slots : ∀ n m : Nat, σ[n]? ≠ some (.contexts m)

abbrev SlotUse.values (k : Nat) : List SlotUse := List.replicate k .value

theorem SlotUse.getElem?_values {k n : Nat} (h : n < k) : (values k)[n]? = some .value := by
  rw [List.getElem?_replicate, if_pos h]

theorem Likeness.Plain.values {l : Likeness} (h : ¬ l.texts) (k : Nat) : l.Plain (SlotUse.values k) where
  texts := h
  slots := by
    intro n m hn
    rw [List.getElem?_replicate] at hn
    split at hn <;> cases hn

/-- Plain code that calls only what does no more to the world than is allowed. -/
structure Likeness.Modest (l : Likeness) (σ : List SlotUse) (k : Change) (h : Host) : Prop extends l.Plain σ where
  host : h.Modest k
  methods : ∀ m, l.method m → ∀ v vs, (m.run v vs).Modest k

end Stencil
