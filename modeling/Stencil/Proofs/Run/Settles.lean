import Stencil.Proofs.Host.Builtin
import Stencil.Proofs.Run.Flow
set_option autoImplicit false

namespace Stencil

theorem Value.settles_fitted (w : World) (k : Kind) (v : Value) : Settles (v.fitted w k) := by
  unfold fitted
  split
  · exact .ok v
  · exact (v.gives_convert w k).settles

def Method.Settles (m : Method) : Prop := ∀ v args w, Stencil.Settles (m.run v args w).1

def Field.Settles (f : Field) : Prop := ∀ w v, Stencil.Settles (f.read w v)

structure HostType.Settles (t : HostType) : Prop where
  field : ∀ {cs name f}, t.field? cs name = some f → f.Settles
  method : ∀ m ∈ t.methods, m.Settles

/-- A host whose members and functions fail on no unresolved name. -/
structure Host.Settles (h : Host) : Prop where
  type : ∀ id, (h.type id).Settles
  function : ∀ f ∈ h.functions, ∀ args w, Stencil.Settles (f args w).1

namespace Builtin

theorem settles_textType : textType.Settles where
  field h w v := (gives_textField h w v).settles
  method _ hm v args w := (gives_textMethod hm v args w).settles

theorem settles_listType : listType.Settles where
  field h w v := (gives_listField h w v).settles
  method _ hm v args w := (gives_listMethod hm v args w).settles

end Builtin

namespace Host

variable {h : Host}

theorem Settles.describe (hh : h.Settles) {w : World} {k : Kind} {t : HostType} (ht : h.describe w k = some t) :
    t.Settles := by
  cases k with
  | text => cases ht; exact Builtin.settles_textType
  | list => cases ht; exact Builtin.settles_listType
  | object o =>
    cases ht
    cases o with
    | declared id => exact hh.type id
    | record ref =>
      refine ⟨fun hf => ?_, nofun⟩
      cases (Table.lookup_empty _ _).symm.trans hf
  | _ => cases ht

theorem Settles.member (hh : h.Settles) (cs : Bool) (v : Value) (name : String) (w : World) :
    Stencil.Settles (h.member cs v name w) := by
  refine Gives.settles (P := fun _ => True) ?_
  unfold Host.member
  split
  · exact .ok trivial
  · split
    · exact .ok trivial
    · next t ht =>
      split
      · next f hf => exact (Gives.of_settles ((hh.describe ht).field hf w v)).map fun _ _ => trivial
      · split
        · exact .ok trivial
        · split
          · split <;> exact .ok trivial
          · exact .ok trivial

theorem gives_position (w : World) (i : Value) (length : Nat) : Gives (fun _ => True) (position w i length) := by
  unfold position
  split
  · exact .mismatch _ _
  · split
    · exact .error nofun
    · exact .ok trivial

theorem gives_index (w : World) (v i : Value) : Gives (fun _ => True) (index w v i) := by
  unfold index
  split
  · exact .ok trivial
  · exact (gives_position w _ _).bind fun _ _ => .ok trivial
  · exact (gives_position w _ _).bind fun _ _ => .ok trivial
  · dsimp only
    split
    · exact .ok trivial
    · split
      · exact (gives_position w _ _).bind fun _ _ => .ok trivial
      · exact .mismatch _ _
  · exact .mismatch _ _

theorem gives_convertArgs (w : World) (ks : List Kind) (vs : List Value) :
    Gives (fun _ => True) (convertArgs w ks vs) := by
  induction ks generalizing vs with
  | nil => exact .ok trivial
  | cons k ks ih =>
    cases vs with
    | nil => exact .ok trivial
    | cons v vs => exact (v.gives_convert w k).bind fun _ _ => (ih vs).bind fun _ _ => .ok trivial

theorem Settles.callValue (hh : h.Settles) (callee : Value) (name : String) (args : List Value) (w : World) :
    Stencil.Settles (h.callValue callee name args w).1 := by
  cases callee with
  | function ref =>
    show Stencil.Settles (h.call ref args w).1
    unfold call
    cases hf : h.functions[ref]? with
    | some f => exact hh.function f (Array.mem_of_getElem? hf) args w
    | none => exact .ok _
  | _ => exact .error nofun

theorem Settles.runMethod {m : Method} (hm : m.Settles) (v : Value) (args : List Value) (w : World) :
    Stencil.Settles (runMethod m v args w).1 := by
  have hargs := gives_convertArgs w m.params args
  unfold Host.runMethod
  rw [Act.bind_apply]
  unfold Act.ofWorld
  dsimp only
  cases hconvert : convertArgs w m.params args with
  | error f => exact .error fun n hn => hargs.settles n (hn ▸ hconvert)
  | ok vs => exact hm v vs w

/-- A call settled on a value fails on an unresolved name only when the value has no member of that name. -/
theorem Settles.invoke (hh : h.Settles) {cs : Bool} {v : Value} {name n : String} {args : List Value}
    {w w' : World} (hi : h.invoke cs v name args w = (.error (.unresolved n), w')) :
    n = name ∧ w' = w ∧ h.member cs v name w = .ok none := by
  have hmember (f : Option Value → Act Value) (hsome : ∀ callee, f (some callee) = h.callValue callee name args)
      (hnone : f none = throw (.unresolved name))
      (hb : (Act.ofWorld (h.member cs v name) >>= f) w = (.error (.unresolved n), w')) :
      n = name ∧ w' = w ∧ h.member cs v name w = .ok none := by
    rw [Act.bind_apply] at hb
    unfold Act.ofWorld at hb
    cases hm : h.member cs v name w with
    | error f =>
      rw [hm] at hb
      cases hb
      exact (hh.member cs v name w _ hm).elim
    | ok found =>
      rw [hm] at hb
      dsimp only at hb
      cases found with
      | some callee =>
        rw [hsome] at hb
        exact (hh.callValue callee name args w n (congrArg Prod.fst hb)).elim
      | none =>
        rw [hnone] at hb
        cases hb
        exact ⟨rfl, rfl, rfl⟩
  unfold Host.invoke at hi
  rw [Act.bind_apply, show (get : Act World) w = (.ok w, w) from rfl] at hi
  dsimp only at hi
  split at hi
  · cases hi
  · cases ht : h.describe w (v.kind w) with
    | none =>
      rw [ht] at hi
      exact hmember _ (fun _ => rfl) rfl hi
    | some t =>
      have hmethod (m : Method) (hm : m ∈ t.methodsNamed cs name) :
          Host.runMethod m v args w ≠ (.error (.unresolved n), w') := fun hrun =>
        Settles.runMethod ((hh.describe ht).method m (HostType.mem_of_methodsNamed hm)) v args w n
          (congrArg Prod.fst hrun)
      rw [ht] at hi
      dsimp only at hi
      cases hm : Selection.select (t.methodsNamed cs name) (args.map (Value.kind w)) with
      | exact m =>
        rw [hm] at hi
        exact (hmethod m (Selection.mem_of_select (.inl hm)) hi).elim
      | converted m =>
        rw [hm] at hi
        exact (hmethod m (Selection.mem_of_select (.inr hm)) hi).elim
      | ambiguous ms =>
        rw [hm] at hi
        cases hi
      | none =>
        rw [hm] at hi
        dsimp only at hi
        split at hi
        · cases hi
        · exact hmember _ (fun _ => rfl) rfl hi

end Host

end Stencil
