import Stencil.Proofs.Host.Builtin
import Stencil.Proofs.Operator.Exactness
import Stencil.Typing.Elaborate
set_option autoImplicit false

namespace Stencil

/-- The integers, enum values and objects that values may be made of. What lies in the range of its kind is
among them. -/
structure Parts where
  int : Int → IntKind → Prop
  enum : EnumType → Int → Prop
  object : Nat → Prop
  inRange : ∀ {n : Int} {k : IntKind}, k.contains n = true → int n k
  enumInRange : ∀ {t : EnumType} {n : Int}, t.underlying.contains n = true → enum t n
  underlying : ∀ {t : EnumType} {n : Int}, enum t n → int n t.underlying

inductive Value.MadeOf (p : Parts) : Value → Prop
  | null : MadeOf p .null
  | bool (b : Bool) : MadeOf p (.bool b)
  | int {n : Int} {k : IntKind} : p.int n k → MadeOf p (.int n k)
  | float (x : Float) (k : FloatKind) : MadeOf p (.float x k)
  | text (s : String) : MadeOf p (.text s)
  | pattern (r : Regex) : MadeOf p (.pattern r)
  | enum {t : EnumType} {n : Int} : p.enum t n → MadeOf p (.enum t n)
  | list {items : List Value} : (∀ v ∈ items, MadeOf p v) → MadeOf p (.list items)
  | object {ref : Nat} : p.object ref → MadeOf p (.object ref)
  | function (ref : Nat) : MadeOf p (.function ref)

structure Object.MadeOf (p : Parts) (o : Object) : Prop where
  members : ∀ t, o.members = some t → ∀ e ∈ t.entries, e.2.MadeOf p
  items : ∀ vs, o.items = some vs → ∀ v ∈ vs, v.MadeOf p
  vars : ∀ vs, o.vars = some vs → ∀ e ∈ vs.entries.entries, e.2.MadeOf p

theorem Object.MadeOf.record {p : Parts} {es : Table Value} (hes : ∀ e ∈ es.entries, e.2.MadeOf p) :
    (Object.record es).MadeOf p := by
  refine ⟨?_, ?_, ?_⟩
  · rintro _ ⟨⟩
  · rintro _ ⟨⟩
  · rintro _ ⟨⟩
    exact hes

def World.MadeOf (p : Parts) (w : World) : Prop := ∀ ref, p.object ref → (w.object ref).MadeOf p

variable {p : Parts} {w : World} {l r v u : Value}

namespace Value.MadeOf

theorem wrapped (v : Int) (k : IntKind) : (Value.wrapped v k).MadeOf p := .int (p.inRange (k.contains_wrap v))

theorem getD {o : Option Value} (ho : ∀ v, o = some v → v.MadeOf p) : (o.getD .null).MadeOf p := by
  cases o with
  | none => exact .null
  | some v => exact ho v rfl

theorem at_position {items : List Value} (h : ∀ v ∈ items, v.MadeOf p) (n : Nat) :
    (items.getD n .null).MadeOf p := by
  rw [List.getD_eq_getElem?_getD]
  exact getD fun v hv => h v (List.mem_of_getElem? hv)

end Value.MadeOf

theorem Value.From.madeOf {given : Value → Prop} (h : v.From given) (hgiven : ∀ u, given u → u.MadeOf p) :
    v.MadeOf p := by
  induction h with
  | given h => exact hgiven _ h
  | item _ hmem ih =>
    cases ih with
    | list hitems => exact hitems _ hmem
  | null => exact .null
  | bool b => exact .bool b
  | int h => exact .int (p.inRange h)
  | float x k => exact .float x k
  | text s => exact .text s
  | enum _ h _ => exact .enum (p.enumInRange h)
  | underlying _ ih =>
    cases ih with
    | enum h => exact .int (p.underlying h)
  | list _ ih => exact .list ih

theorem BinaryOp.madeOf_apply {op : BinaryOp} (hl : l.MadeOf p) (hr : r.MadeOf p) :
    Ensures (Value.MadeOf p) (op.apply w l r) := by
  intro v hv
  refine ((op.gives_apply w l r).ensures v hv).madeOf ?_
  rintro _ (rfl | rfl)
  · exact hl
  · exact hr

theorem UnaryOp.madeOf_apply {op : UnaryOp} (hv : v.MadeOf p) : Ensures (Value.MadeOf p) (op.apply w v) :=
  fun u hu => ((op.gives_apply w v).ensures u hu).madeOf fun _ h => h ▸ hv

namespace Value

theorem madeOf_convert (hv : v.MadeOf p) (target : Kind) : Ensures (MadeOf p) (v.convert w target) :=
  fun u hu => ((v.gives_convert w target).ensures u hu).madeOf fun _ h => h ▸ hv

theorem madeOf_elements (hw : w.MadeOf p) (hv : v.MadeOf p) :
    Ensures (fun us => ∀ u ∈ us, u.MadeOf p) (v.elements w) := by
  cases hv with
  | null => exact .ok nofun
  | list hitems => exact .ok hitems
  | text s =>
    refine .ok fun u hu => ?_
    obtain ⟨c, -, rfl⟩ := List.mem_map.1 hu
    exact .text _
  | @object ref href =>
    dsimp only [elements]
    split
    · next vs hvs => exact .ok ((hw ref href).items vs hvs)
    · exact .error
  | _ => exact .error

end Value

theorem Literal.madeOf_value (l : Literal) (span : Span) : Ensures (Value.MadeOf p) (l.value span) := by
  cases l with
  | null => exact .ok .null
  | bool b => exact .ok (.bool b)
  | int v k => exact .ok (.wrapped v k)
  | float x k => exact .ok (.float _ _)
  | text s => exact .ok (.text s)
  | pattern body flags =>
    dsimp only [value]
    split
    · exact .ok (.pattern _)
    · exact .error
    · exact .error

theorem Object.MadeOf.lookup {o : Object} (ho : o.MadeOf p) {vs : Variables} (hvs : o.vars = some vs)
    (cs : Bool) (name : String) : ((vs.get? cs name).getD .null).MadeOf p := by
  refine .getD fun v hv => ?_
  obtain ⟨n, hn⟩ := Table.mem_of_lookup hv
  exact ho.vars vs hvs _ hn

theorem Host.madeOf_index (hw : w.MadeOf p) (hv : v.MadeOf p) (i : Value) :
    Ensures (Value.MadeOf p) (index w v i) := by
  cases hv with
  | null => exact .ok .null
  | text s => exact .bind_any fun _ => .ok (.text _)
  | list hitems => exact .bind_any fun n => .ok (.at_position hitems n)
  | @object ref href =>
    unfold index
    dsimp only
    split
    · next vs name hvs => exact .ok ((hw ref href).lookup hvs true name)
    · split
      · next items hitems => exact .bind_any fun n => .ok (.at_position ((hw ref href).items items hitems) n)
      · exact .error
  | _ => exact .error

namespace World

theorem madeOf_update (hw : w.MadeOf p) (ref : Nat) {f : Object → Object}
    (hf : ∀ o, o.MadeOf p → (f o).MadeOf p) : (w.update ref f).MadeOf p := by
  intro n hpart
  have hn := hw n hpart
  unfold object update at *
  rw [Array.getD_eq_getD_getElem?] at hn ⊢
  rw [Array.getElem?_modify]
  split
  · cases hget : w.objects[n]? with
    | none =>
      rw [hget] at hn
      exact hn
    | some o =>
      rw [hget] at hn
      exact hf o hn
  · exact hn

theorem madeOf_changeVars (hw : w.MadeOf p) (ref : Nat) {f : Variables → Variables}
    (hf : ∀ vs, ∀ e ∈ (f vs).entries.entries, e ∈ vs.entries.entries ∨ e.2.MadeOf p) :
    (w.update ref fun o => { o with vars := o.vars.map f }).MadeOf p := by
  refine madeOf_update hw ref fun o ho => ⟨ho.members, ho.items, ?_⟩
  intro vs hvs e he
  obtain ⟨vs', hvs', rfl⟩ := Option.map_eq_some_iff.1 hvs
  obtain hold | hnew := hf vs' e he
  · exact ho.vars vs' hvs' e hold
  · exact hnew

theorem madeOf_setVariable (hw : w.MadeOf p) (ref : Nat) (name : String) (hv : v.MadeOf p) :
    (w.setVariable ref name v).MadeOf p := by
  refine madeOf_changeVars hw ref fun vs e he => ?_
  unfold Variables.set at he
  split at he
  · obtain h | rfl := Table.mem_set he
    · exact .inl h
    · exact .inr hv
  · obtain h | rfl := Table.mem_set he
    · exact .inl (List.mem_filter.1 h).1
    · exact .inr hv

theorem madeOf_unsetVariable (hw : w.MadeOf p) (ref : Nat) (name : String) :
    (w.unsetVariable ref name).MadeOf p :=
  madeOf_changeVars hw ref fun _ _ he => .inl (List.mem_filter.1 he).1

end World

end Stencil
