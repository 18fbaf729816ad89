import Stencil.Run
set_option autoImplicit false

namespace Stencil

theorem Env.slot_setSlot (e : Env) (n : Nat) (v : Value) : (e.setSlot n v).slot n = v := by
  unfold setSlot slot
  dsimp only
  rw [Array.getD_eq_getD_getElem?, Array.getElem?_setIfInBounds_self_of_lt, Option.getD_some]
  split
  · next h => exact h
  · rw [Array.size_append, Array.size_replicate]
    omega

theorem Env.slot_setSlot_ne (e : Env) {n m : Nat} (hnm : n ≠ m) (v : Value) : (e.setSlot n v).slot m = e.slot m := by
  unfold setSlot slot
  dsimp only
  rw [Array.getD_eq_getD_getElem?, Array.getD_eq_getD_getElem?, Array.getElem?_setIfInBounds_ne hnm]
  split
  · rfl
  · rw [Array.getElem?_append]
    split
    · rfl
    · next hm =>
      -- The slots that are added are empty, as is what lies past the end.
      rw [Array.getElem?_eq_none (Nat.le_of_not_lt hm), Array.getElem?_replicate]
      split <;> rfl

theorem Env.slot_init (root : Value) (k n : Nat) (w : World) : (init root k w).slot n = .null := by
  simp [slot, init, Array.getD_eq_getD_getElem?, Array.getElem?_replicate]
  split <;> rfl

theorem Env.contexts_write (e : Env) (s : String) : (e.write s).contexts = e.contexts := by
  unfold write
  split <;> rfl

theorem Env.slots_write (e : Env) (s : String) : (e.write s).slots = e.slots := by
  unfold write
  split <;> rfl

theorem Act.bind_apply {α β : Type} (x : Act α) (f : α → Act β) (w : World) :
    (x >>= f) w = match x w with
      | (.ok a, w₁) => f a w₁
      | (.error r, w₁) => (.error r, w₁) := by
  cases hx : x w with
  | mk r w₁ =>
    simp only [bind, ExceptT.bind, ExceptT.mk, StateT.bind, hx]
    cases r <;> rfl

namespace Flow

variable {α β : Type} {e e' : Env}

theorem bind_apply (x : Flow α) (f : α → Flow β) (e : Env) :
    (x >>= f) e = match x e with
      | (.ok a, e₁) => f a e₁
      | (.error r, e₁) => (.error r, e₁) := by
  cases hx : x e with
  | mk r e₁ =>
    simp only [bind, ExceptT.bind, ExceptT.mk, StateT.bind, hx]
    cases r <;> rfl

theorem bind_ok {x : Flow α} {f : α → Flow β} {b : β} (h : (x >>= f) e = (.ok b, e')) :
    ∃ a e₁, x e = (.ok a, e₁) ∧ f a e₁ = (.ok b, e') := by
  cases hx : x e with
  | mk r e₁ =>
    simp only [bind, ExceptT.bind, ExceptT.mk, StateT.bind, hx] at h
    cases r with
    | error => cases h
    | ok a => exact ⟨a, e₁, rfl, h⟩

theorem look_ok {f : World → Except Failure α} {a : α} (h : look f e = (.ok a, e')) :
    f e.world = .ok a ∧ e' = e := by
  unfold look at h
  split at h
  · next hf => cases h; exact ⟨hf, rfl⟩
  · cases h

theorem look_of_ok {f : World → Except Failure α} {a : α} (h : f e.world = .ok a) : look f e = (.ok a, e) := by
  unfold look
  rw [h]

theorem act_world (a : Act α) (e : Env) : ∃ w, (act a e).2 = { e with world := w } := by
  unfold act
  split <;> exact ⟨_, rfl⟩

theorem act_ok {a : Act α} {v : α} (h : act a e = (.ok v, e')) :
    ∃ w, a e.world = (.ok v, w) ∧ e' = { e with world := w } := by
  unfold act at h
  split at h
  · next ha => cases h; exact ⟨_, ha, rfl⟩
  · cases h

theorem lenient_world {a : Act Value} {strict : Bool} {v : Value}
    (h : lenient strict (act a) e = (.ok v, e')) : ∃ w, e' = { e with world := w } := by
  obtain ⟨w, hw⟩ := act_world a e
  unfold lenient at h
  split at h
  · next ha =>
    rw [ha] at hw
    split at h
    · cases h
    · cases h; exact ⟨w, hw⟩
  · rw [h] at hw
    exact ⟨w, hw⟩

end Flow

/-- The text of a fragment in contexts given from the outermost in. -/
def Fragment.body (h : Host) (f : Fragment) (contexts : List Value) : Flow String :=
  Flow.withContexts contexts
    (Flow.withContext (contexts.getLast?.getD .null)
      (Flow.parts (Step.runAll h f.compute) (Step.runAll h f.emit)))

theorem Code.run_fragment (h : Host) (f : Fragment) (args : List Code) :
    Code.run h (.fragment f.name f.params f.snapshot f.compute f.emit args) = (do
      match (← get).slot f.snapshot with
      | .list contexts =>
        let vs ← Code.runAll h args
        modify fun e => e.setSlots f.params vs
        return .text (← f.body h contexts)
      | _ => throw (.fail (.notInvocable f.name "called before its definition ran"))) :=
  rfl

end Stencil
