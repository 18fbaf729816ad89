import Stencil.Proofs.Host.Builtin
import Stencil.Proofs.Run.Relocation
set_option autoImplicit false

namespace Stencil

structure Host.Pure (h : Host) : Prop where
  functions : ∀ f ∈ h.functions, ∀ args w, (f args w).2 = w
  methods : ∀ t ∈ h.types, ∀ m ∈ t.methods, ∀ v args w, (m.run v args w).2 = w

abbrev Method.Pure (m : Method) : Prop := ∀ v args, (m.run v args).Modest .none

namespace Act.Modest

variable {α β : Type} {k : Change}

theorem value (a : α) : Modest k (pure a : Act α) := fun w => k.refl w

theorem fail (f : Failure) : Modest k (throw f : Act α) := fun w => k.refl w

theorem ofWorld (f : World → Except Failure α) : Modest k (ofWorld f) := fun w => k.refl w

theorem bind {x : Act α} {f : α → Act β} (hx : x.Modest k) (hf : ∀ a, (f a).Modest k) : Modest k (x >>= f) := by
  intro w
  have hw := hx w
  rw [bind_apply]
  cases hr : x w with
  | mk r w₁ =>
    rw [hr] at hw
    cases r with
    | error r => exact hw
    | ok a => exact k.trans hw (hf a w₁)

theorem reading {f : World → Act α} (hf : ∀ w, (f w).Modest k) : Modest k (get >>= f) := fun w => hf w w

end Act.Modest

namespace Builtin

theorem pure_pureMethod (name : String) (params : List Kind) (returns : Kind)
    (f : World → Value → List Value → Except Failure Value) : (pureMethod name params returns f).Pure :=
  fun v args => .ofWorld fun w => f w v args

theorem textType_pure {m : Method} (h : m ∈ textType.methods) : m.Pure := by
  simp only [textType, List.mem_cons, List.not_mem_nil, or_false] at h
  obtain rfl | rfl | rfl | rfl | rfl | rfl | rfl | rfl | rfl | rfl | rfl := h <;> exact pure_pureMethod _ _ _ _

theorem listType_pure {m : Method} (h : m ∈ listType.methods) : m.Pure := by
  simp only [listType, List.mem_cons, List.not_mem_nil, or_false] at h
  obtain rfl | rfl := h <;> exact pure_pureMethod _ _ _ _

end Builtin

namespace Host.Pure

variable {h : Host}

theorem type (hh : h.Pure) (n : Nat) : ∀ m ∈ (h.type n).methods, m.Pure := by
  intro m hm v args w
  unfold Host.type at hm
  rw [Array.getD_eq_getD_getElem?] at hm
  cases ht : h.types[n]? with
  | none =>
    rw [ht] at hm
    cases hm
  | some t =>
    rw [ht] at hm
    exact (hh.methods t (Array.mem_of_getElem? ht) m hm v args w).symm

theorem describe (hh : h.Pure) {w : World} {k : Kind} {t : HostType} (ht : h.describe w k = some t) :
    ∀ m ∈ t.methods, m.Pure := by
  unfold Host.describe at ht
  split at ht <;> cases ht
  · next o =>
    cases o with
    | declared n name => exact hh.type n
    | record ref => exact nofun
  · exact fun _ => Builtin.textType_pure
  · exact fun _ => Builtin.listType_pure

theorem call (hh : h.Pure) (ref : Nat) (args : List Value) : (h.call ref args).Modest .none := by
  unfold Host.call
  split
  · next f hf => exact fun w => (hh.functions f (Array.mem_of_getElem? hf) args w).symm
  · exact .value _

theorem callValue (hh : h.Pure) (v : Value) (name : String) (args : List Value) :
    (h.callValue v name args).Modest .none := by
  unfold Host.callValue
  split
  · exact hh.call _ _
  · exact .reading fun w => .fail _

theorem runMethod {m : Method} (hm : m.Pure) (v : Value) (args : List Value) :
    (Host.runMethod m v args).Modest .none :=
  .bind (.ofWorld _) fun _ => hm v _

theorem invoke (hh : h.Pure) (cs : Bool) (v : Value) (name : String) (args : List Value) :
    (h.invoke cs v name args).Modest .none := by
  have hmember {f : Option Value → Act Value} (hsome : ∀ callee, f (some callee) = h.callValue callee name args)
      (hnone : f none = throw (.unresolved name)) : (Act.ofWorld (h.member cs v name) >>= f).Modest .none := by
    refine .bind (.ofWorld _) fun found => ?_
    cases found with
    | some callee => exact hsome callee ▸ hh.callValue callee name args
    | none => exact hnone ▸ .fail _
  unfold Host.invoke
  refine .reading fun w => ?_
  dsimp only
  split
  · exact .value _
  · cases ht : h.describe w (v.kind w) with
    | none => exact hmember (fun _ => rfl) rfl
    | some t =>
      have hmethods {m : Method} (hm : m ∈ t.methodsNamed cs name) : m.Pure :=
        hh.describe ht m (HostType.mem_of_methodsNamed hm)
      dsimp only
      cases hs : Selection.select (t.methodsNamed cs name) (args.map (Value.kind w)) with
      | exact m => exact runMethod (hmethods (Selection.mem_of_select (.inl hs))) v args
      | converted m => exact runMethod (hmethods (Selection.mem_of_select (.inr hs))) v args
      | ambiguous ms => exact .fail _
      | none =>
        dsimp only
        split
        · exact .fail _
        · exact hmember (fun _ => rfl) rfl

theorem modest (hh : h.Pure) : h.Modest .none := ⟨hh.invoke, hh.callValue⟩

end Host.Pure

/-- A run that leaves the world as it is, and the slots from a number on; it is never stopped. -/
structure Flow.CalmAt {α : Type} (k : Nat) (x : Flow α) (e : Env) : Prop where
  goes : (x e).1 ≠ .error .stop
  world : (x e).2.world = e.world
  slots : ∀ n, k ≤ n → (x e).2.slot n = e.slot n

def Flow.Calm {α : Type} (k : Nat) (x : Flow α) : Prop := ∀ e, x.CalmAt k e

namespace Flow.Calm

variable {α β : Type} {k : Nat} {x : Flow α}

theorem of_modest (h : Modest .none x) : Calm k x := by
  intro e
  obtain ⟨hstop, w, rfl, hw⟩ := h e
  exact ⟨hstop, by rw [hw], fun n _ => by rw [hw]⟩

theorem mono {k' : Nat} (hk : k ≤ k') (h : Calm k x) : Calm k' x :=
  fun e => ⟨(h e).goes, (h e).world, fun n hn => (h e).slots n (Nat.le_trans hk hn)⟩

theorem value (a : α) : Calm k (pure a) := of_modest (.value a)

theorem fail (f : Failure) : Calm k (throw (.fail f) : Flow α) := of_modest (.fail f)

theorem look (f : World → Except Failure α) : Calm k (look f) := of_modest (.look f)

theorem bind {f : α → Flow β} (hx : Calm k x) (hf : ∀ a, Calm k (f a)) : Calm k (x >>= f) := by
  intro e
  obtain ⟨hstop, hworld, hslots⟩ := hx e
  have happly := bind_apply x f e
  cases hr : x e with
  | mk r e₁ =>
    rw [hr] at hstop hworld hslots happly
    cases r with
    | error r =>
      refine ⟨?_, by rw [happly]; exact hworld, fun n hn => by rw [happly]; exact hslots n hn⟩
      rw [happly]
      exact fun h => hstop (by cases h; rfl)
    | ok a =>
      obtain ⟨hstop', hworld', hslots'⟩ := hf a e₁
      dsimp only at happly
      exact ⟨by rwa [happly], by rw [happly, hworld', hworld],
        fun n hn => by rw [happly, hslots' n hn, hslots n hn]⟩

theorem reading {f : Env → Flow α} (hf : ∀ e, Calm k (f e)) : Calm k (get >>= f) := fun e =>
  ⟨(hf e e).goes, (hf e e).world, (hf e e).slots⟩

theorem write (s : String) : Calm k (write s) := fun e =>
  ⟨nofun, e.world_write s, fun n _ => congrArg (fun a : Array Value => a.getD n .null) (e.slots_write s)⟩

theorem fill {ns : List Nat} (hns : ∀ n ∈ ns, n < k) (vs : List Value) :
    Calm k (modify fun e => e.setSlots ns vs : Flow Unit) := by
  intro e
  obtain ⟨hworld, hslots⟩ : (e.setSlots ns vs).world = e.world ∧
      ∀ n, k ≤ n → (e.setSlots ns vs).slot n = e.slot n := by
    induction ns generalizing e vs with
    | nil => exact ⟨rfl, fun _ _ => rfl⟩
    | cons m ns ih =>
      cases vs with
      | nil => exact ⟨rfl, fun _ _ => rfl⟩
      | cons v vs =>
        obtain ⟨hm, hns⟩ := List.forall_mem_cons.1 hns
        obtain ⟨hworld, hslots⟩ := ih hns vs (e.setSlot m v)
        refine ⟨hworld, fun n hn => (hslots n hn).trans ?_⟩
        exact Env.slot_setSlot_ne e (by omega) v
  exact ⟨nofun, hworld, hslots⟩

theorem withContext (v : Value) (h : Calm k x) : Calm k (withContext v x) := fun e =>
  ⟨(h _).goes, (h { e with contexts := v :: e.contexts }).world, (h { e with contexts := v :: e.contexts }).slots⟩

theorem capture {x : Flow Unit} (h : Calm k x) : Calm k (capture x) := by
  intro e
  have hinner := h { e with captures := "" :: e.captures }
  refine ⟨?_, hinner.world, hinner.slots⟩
  rw [capture_apply]
  have hgoes := hinner.goes
  cases hr : (x { e with captures := "" :: e.captures }).1 with
  | ok a => exact nofun
  | error r =>
    rw [hr] at hgoes
    exact fun hstop => hgoes (by cases hstop; rfl)

theorem each {f : Value → Flow Unit} (h : ∀ v, Calm k (f v)) (vs : List Value) : Calm k (each f vs) := by
  induction vs with
  | nil => exact .value ()
  | cons v vs ih => exact (h v).bind fun _ => ih

end Flow.Calm

end Stencil
