import Stencil.Proofs.Typing.LateCalls
import Stencil.Proofs.Typing.Ranges
import Stencil.Proofs.Value.Conversion
/-!
Passing values. What can be passed for a parameter by its kind is converted when it is passed, so a method that was
chosen always gets its arguments. A conversion gives a value of the kind asked for, and the same value when it is
done again; integers and the items of lists stay what and where they are.
-/
set_option autoImplicit false

namespace Stencil

/-- A value of a kind, null being one only of the kinds whose values may be null. A list is of the kinds of lists that
all its items are of. -/
inductive Conforms (w : World) : Kind → Value → Prop
  | null {k : Kind} : k.isNullable = true → Conforms w k .null
  | any {v : Value} : Conforms w .any v
  | list {k : Kind} {items : List Value} : (∀ v ∈ items, Conforms w k v) → Conforms w (.list k) (.list items)
  | kind {k : Kind} {v : Value} : v.kind w == k → Conforms w k v

variable {w : World} {v u : Value} {k : Kind}

namespace Kind

theorem assignable_any (a : Kind) : a.assignable any = true := by cases a <;> rfl

theorem assignable_null {b : Kind} : null.assignable b = b.isNullable := by cases b <;> rfl

/-- What can be passed can stand unchanged, unless it is unknown or a number of a narrower kind. -/
theorem implicitCost_cases {a b : Kind} (h : (a.implicitCost b).isSome) :
    a = any ∨ a.assignable b ∨ (∃ i j, a = int i ∧ b = int j ∧ i.within j) ∨ (∃ i j, a = int i ∧ b = float j) ∨
      (a = float .f32 ∧ b = float .f64) := by
  unfold implicitCost at h
  split at h
  · next hsame => exact .inr (.inl (assignable_of_same hsame))
  · split at h
    · exact .inl rfl
    · exact .inr (.inl (assignable_any a))
    · split at h
      · next hnull => exact .inr (.inl (assignable_null.trans hnull))
      · cases h
    · split at h
      · next hwithin => exact .inr (.inr (.inl ⟨_, _, rfl, rfl, hwithin⟩))
      · cases h
    · exact .inr (.inr (.inr (.inl ⟨_, _, rfl, rfl⟩)))
    · exact .inr (.inr (.inr (.inr ⟨rfl, rfl⟩)))
    · split at h
      · next hlist => exact .inr (.inl hlist)
      · cases h
    · cases h

end Kind

namespace Value

theorem convert_int {n : Int} {i j : IntKind} (hn : j.contains n = true) :
    (int n i).convert w (.int j) = .ok (int n j) := by
  by_cases hassign : (Kind.int i).assignable (.int j) = true
  · obtain rfl : i = j := by simpa [Kind.assignable, Kind.beq_eq_same, Kind.same] using hassign
    exact convert_of_assignable hassign
  · rw [convert.eq_def]
    simp [kind, hassign, hn]

theorem convert_rounded {n : Int} {i : IntKind} {j : FloatKind} :
    (int n i).convert w (.float j) = .ok (rounded (Decimal.ofInt n) j) := rfl

theorem convert_widened {x : Float} : (float x .f32).convert w (.float .f64) = .ok (float x .f64) := rfl

theorem convert_of_implicitCost (hv : v.WellFormed) (h : ((v.kind w).implicitCost k).isSome) :
    ∃ u, v.convert w k = .ok u := by
  obtain hany | hassign | ⟨i, j, hi, rfl, hij⟩ | ⟨i, j, hi, rfl⟩ | ⟨hf, rfl⟩ := Kind.implicitCost_cases h
  · have hknown := v.isAny_kind w
    rw [hany] at hknown
    cases hknown
  · exact ⟨v, convert_of_assignable hassign⟩
  · cases hv with
    | @int n _ hn =>
      cases hi
      exact ⟨_, convert_int (IntKind.contains_of_within hij hn)⟩
    | _ => simp [kind_eq] at hi
  · cases hv with
    | int => exact ⟨_, convert_rounded⟩
    | _ => simp [kind_eq] at hi
  · cases hv with
    | float =>
      cases hf
      exact ⟨_, convert_widened⟩
    | _ => simp [kind_eq] at hf

theorem mapM_ok_iff_forall₂ {f : Value → Except Failure Value} {items us : List Value} :
    items.mapM f = .ok us ↔ List.Forall₂ (fun x y => f x = .ok y) items us := by
  induction items generalizing us with
  | nil =>
    rw [List.forall₂_nil_left_iff]
    exact ⟨fun h => by cases h; rfl, fun h => by rw [h]; rfl⟩
  | cons x items ih =>
    rw [List.mapM_cons]
    constructor
    · intro h
      obtain ⟨y, hy, h⟩ := exists_of_bind_ok h
      obtain ⟨ys, hys, h⟩ := exists_of_bind_ok h
      cases h
      exact .cons hy (ih.1 hys)
    · rintro (_ | ⟨hy, hys⟩)
      rw [hy, ih.2 hys]
      rfl

theorem conforms_of_assignable (h : (v.kind w).assignable k = true) : Conforms w k v := by
  obtain rfl | hnull | ⟨j, element, hj, rfl, hjk⟩ | hsame := Kind.assignable_cases h
  · exact .any
  · obtain rfl : v = .null := eq_null (by rw [← isNull_kind w, hnull]; rfl)
    exact .null (Kind.assignable_null.symm.trans h)
  · cases v with
    | list items =>
      -- the items can be anything, and so can those that are asked for
      cases hj
      obtain rfl : element = .any := by
        cases element with
        | any => rfl
        | _ => cases hjk
      exact .list fun _ _ => .any
    | _ => simp [kind_eq] at hj
  · exact .kind hsame

/-- What holds of values that are kept, of numbers of the kind asked for, and of lists of such items holds of all that a
conversion gives. -/
theorem convert_gives {P : Kind → Value → Prop} (kept : ∀ k v, (v.kind w).assignable k = true → P k v)
    (int : ∀ j n, P (.int j) (int n j)) (float : ∀ j x, P (.float j) (float x j))
    (list : ∀ element items, (∀ v ∈ items, P element v) → P (.list element) (list items))
    (h : v.convert w k = .ok u) : P k u := by
  induction k generalizing v u with
  | list element ih =>
    obtain ⟨hassign, rfl⟩ | ⟨_, _, hk, -⟩ | ⟨_, _, _, hk, -⟩ | ⟨_, hk, -⟩ | ⟨_, items, us, hk, rfl, rfl, hus⟩ :=
      convert_cases h
    · exact kept _ _ hassign
    · cases hk
    · cases hk
    · cases hk
    · cases hk
      refine list element us fun y hy => ?_
      obtain ⟨x, -, hx⟩ := exists_of_mapM_ok hus y hy
      exact ih hx
  | _ =>
    obtain ⟨hassign, rfl⟩ | ⟨j, n, hk, -, rfl⟩ | ⟨j, n, i, hk, -, rfl⟩ | ⟨x, hk, -, rfl⟩ | ⟨_, _, _, hk, -⟩ :=
      convert_cases h
    · exact kept _ _ hassign
    · exact hk ▸ int j n
    · exact hk ▸ float j _
    · exact hk ▸ float .f64 x
    · cases hk

theorem conforms_convert (h : v.convert w k = .ok u) : Conforms w k u :=
  convert_gives (fun _ _ => conforms_of_assignable) (fun _ _ => .kind (Kind.same_refl _))
    (fun _ _ => .kind (Kind.same_refl _)) (fun _ _ => .list) h

theorem convert_again (h : v.convert w k = .ok u) : u.convert w k = .ok u := by
  refine convert_gives (P := fun k u => u.convert w k = .ok u) ?kept ?int ?float ?list h
  case kept => exact fun _ _ => convert_of_assignable
  case int | float => exact fun _ _ => convert_of_assignable (Kind.assignable_of_same (Kind.same_refl _))
  case list =>
    intro element items hitems
    rw [convert_items, mapM_ok_iff_forall₂.2 (List.forall₂_same.2 hitems)]
    rfl

theorem convert_keeps_items {items : List Value} (h : (list items).convert w k = .ok u) :
    ∃ us, u = list us ∧ (k = .any ∧ us = items ∨
      ∃ element, k = .list element ∧ List.Forall₂ (fun x y => x.convert w element = .ok y) items us) := by
  cases k with
  | any =>
    cases h
    exact ⟨items, rfl, .inl ⟨rfl, rfl⟩⟩
  | list element =>
    rw [convert_items] at h
    obtain ⟨us, hus, rfl⟩ := exists_of_map_ok h
    exact ⟨us, rfl, .inr ⟨element, rfl, mapM_ok_iff_forall₂.1 hus⟩⟩
  | _ => cases h

theorem convert_keeps_int {j : IntKind} (h : v.convert w (.int j) = .ok u) :
    ∃ n, v.toInt? = some n ∧ u = int n j := by
  obtain ⟨hassign, rfl⟩ | ⟨_, n, hk, hn, rfl⟩ | ⟨_, _, _, hk, -⟩ | ⟨_, hk, -⟩ | ⟨_, _, _, hk, -⟩ := convert_cases h
  · cases u with
    | int n i =>
      obtain rfl : i = j := by simpa [kind, Kind.assignable, Kind.beq_eq_same, Kind.same] using hassign
      exact ⟨n, rfl, rfl⟩
    | object ref =>
      rw [kind_eq] at hassign
      cases hassign
    | _ => cases hassign
  · cases hk
    exact ⟨n, hn, rfl⟩
  · cases hk
  · cases hk
  · cases hk

end Value

namespace Host

variable {h : Host} {cs : Bool} {o : Value} {name : String} {args : List Value} {m : Method}

/-- The method that a call of a name on a value chooses for its arguments. -/
def Chooses (h : Host) (w : World) (cs : Bool) (o : Value) (name : String) (args : List Value) (m : Method) : Prop :=
  o.isNull = false ∧ ∃ t, h.describe w (o.kind w) = some t ∧
    (Selection.select (t.methodsNamed cs name) (args.map (Value.kind w)) = .exact m ∨
      Selection.select (t.methodsNamed cs name) (args.map (Value.kind w)) = .converted m)

theorem convertArgs_of_passes {params : List Kind} (hargs : ∀ a ∈ args, a.WellFormed)
    (h : Selection.Passes params (args.map (Value.kind w))) : ∃ us, convertArgs w params args = .ok us := by
  induction args generalizing params with
  | nil =>
    cases h
    exact ⟨[], rfl⟩
  | cons a args ih =>
    cases h with
    | cons hcost hrest =>
      rw [List.forall_mem_cons] at hargs
      obtain ⟨u, hu⟩ := Value.convert_of_implicitCost hargs.1 hcost
      obtain ⟨us, hus⟩ := ih hargs.2 hrest
      exact ⟨u :: us, by rw [convertArgs, hu, hus]; rfl⟩

theorem invoke_chosen (hargs : ∀ a ∈ args, a.WellFormed) (hm : h.Chooses w cs o name args m) :
    ∃ us, convertArgs w m.params args = .ok us ∧ h.invoke cs o name args w = m.run o us w := by
  obtain ⟨ho, t, ht, hselect⟩ := hm
  obtain ⟨us, hus⟩ := convertArgs_of_passes hargs (Selection.passes_of_select hselect)
  refine ⟨us, hus, ?_⟩
  rw [invoke_method ho ht hselect, runMethod, Act.bind_apply, Act.ofWorld, hus]

end Host

/-- Costs and conversions agree. A value whose kind can be passed for a kind is converted to it, and a call never fails
for the arguments of the method it chooses. What a conversion gives is a value of the kind asked for, and stays the same
when it is converted again; integers stay the same integers, and lists keep their items in their places. -/
theorem conversions_follow_costs (w : World) :
    (∀ (v : Value) (k : Kind), v.WellFormed → ((v.kind w).implicitCost k).isSome → ∃ u, v.convert w k = .ok u) ∧
    (∀ (h : Host) cs o name args m, (∀ a ∈ args, a.WellFormed) → h.Chooses w cs o name args m →
      ∃ us, Host.convertArgs w m.params args = .ok us ∧ h.invoke cs o name args w = m.run o us w) ∧
    ∀ (v : Value) (k : Kind) (u : Value), v.WellFormed → v.convert w k = .ok u →
      Conforms w k u ∧ u.WellFormed ∧ u.convert w k = .ok u ∧
      (∀ j, k = .int j → ∃ n, v.toInt? = some n ∧ u = .int n j) ∧
      ∀ items, v = .list items → ∃ us, u = .list us ∧ (k = .any ∧ us = items ∨
        ∃ element, k = .list element ∧ List.Forall₂ (fun x y => x.convert w element = .ok y) items us) := by
  refine ⟨fun v k => Value.convert_of_implicitCost, fun h cs o name args m => Host.invoke_chosen, ?_⟩
  intro v k u hv hu
  refine ⟨Value.conforms_convert hu, Value.madeOf_convert hv k u hu, Value.convert_again hu, ?_, ?_⟩
  · rintro j rfl
    exact Value.convert_keeps_int hu
  · rintro items rfl
    exact Value.convert_keeps_items hu

/-- A call widens its argument, and a list of a number and an enum value becomes a list of wide integers. -/
theorem conversions_follow_costs_list :
    let shade : EnumType := ⟨⟨some "ink", "Shade"⟩, .u8, ⟨[("Light", 0), ("Dark", 200)]⟩⟩
    let scale : Method := ⟨"scale", [.int .i64], .int .i64, false, fun _ args => pure (args.headD .null)⟩
    let host : Host := ⟨#[{ HostType.named ⟨none, "Meter"⟩ with methods := [scale] }], #[], none⟩
    let w : World := { World.empty with objects := #[⟨.declared 0 ⟨none, "Meter"⟩, none, none, none, none⟩] }
    (∃ u, (Value.int 7 .i32).convert w (.int .i64) = .ok u) ∧
      host.Chooses w true (.object 0) "scale" [.int 7 .i32] scale ∧
      (∃ us, Host.convertArgs w scale.params [.int 7 .i32] = .ok us ∧
        host.invoke true (.object 0) "scale" [.int 7 .i32] w = scale.run (.object 0) us w) ∧
      (Value.list [.int 7 .i32, .enum shade 200]).convert w (.list (.int .i64)) =
        .ok (.list [.int 7 .i64, .int 200 .i64]) ∧
      Conforms w (.list (.int .i64)) (.list [.int 7 .i64, .int 200 .i64]) := by
  intro shade scale host w
  obtain ⟨hcost, hcall, hgiven⟩ := conversions_follow_costs w
  have hseven : (Value.int 7 .i32).WellFormed := .int (by decide : IntKind.i32.contains 7 = true)
  have hdark : (Value.enum shade 200).WellFormed := .enum (by decide : IntKind.u8.contains 200 = true)
  have hchooses : host.Chooses w true (.object 0) "scale" [.int 7 .i32] scale := ⟨rfl, _, rfl, .inr rfl⟩
  have hlist : (Value.list [.int 7 .i32, .enum shade 200]).convert w (.list (.int .i64)) =
      .ok (.list [.int 7 .i64, .int 200 .i64]) := rfl
  refine ⟨hcost _ _ hseven rfl, hchooses, hcall host _ _ _ _ _ (by simpa using hseven) hchooses, hlist, ?_⟩
  exact (hgiven _ _ _ (.list (by simp [hseven, hdark])) hlist).1

end Stencil
