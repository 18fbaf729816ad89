import Stencil.Proofs.Numeric.Rounding
import Stencil.Proofs.Value.Inhabits
/-!
What conversions keep. An integer stays the same integer, or becomes the nearest float; a float that is widened
stays the same number. So what a value is converted to equals the value, and a value of a kind can be given
where that kind meets another one unless an integer would leave its range or an enum value become a float.
-/
set_option autoImplicit false

namespace Stencil

namespace Value

variable {w : World} {v u : Value} {k : Kind}

theorem toInt?_convert {n : Int} (hn : v.toInt? = some n) (h : v.convert w k = .ok u) :
    u.toInt? = some n ∨ ∃ f, k = .float f ∧ u = rounded (Decimal.ofInt n) f := by
  obtain ⟨-, rfl⟩ | ⟨j, m, -, hm, rfl⟩ | ⟨j, m, i, rfl, rfl, rfl⟩ | ⟨x, -, rfl, -⟩ | ⟨_, _, _, -, rfl, -⟩ :=
    convert_cases h
  · exact .inl hn
  · exact .inl (hm.symm.trans hn)
  · cases hn
    exact .inr ⟨j, rfl, rfl⟩
  · cases hn
  · cases hn

theorem toInt?_of_convert {n : Int} (hn : u.toInt? = some n) (h : v.convert w k = .ok u) : v.toInt? = some n := by
  obtain ⟨-, rfl⟩ | ⟨j, m, -, hm, rfl⟩ | ⟨j, m, i, -, -, rfl⟩ | ⟨x, -, -, rfl⟩ | ⟨_, _, _, -, -, rfl, -⟩ :=
    convert_cases h
  · exact hn
  · cases hn
    exact hm
  · cases hn
  · cases hn
  · cases hn

theorem equals_int {n : Int} {j : IntKind} (h : v.toInt? = some n) : (int n j).equals w v = true := by
  cases v with
  | int m i | enum t m =>
    cases h
    show (numericOrder? _ _ == some .eq) = true
    simp [numericOrder?, toInt?]
  | _ => cases h

theorem equals_rounded {n : Int} {i : IntKind} {j : FloatKind} :
    (rounded (Decimal.ofInt n) j).equals w (int n i) = true := by
  have hself : floatOrder? (j.round (Decimal.ofInt n)) (j.round (Decimal.ofInt n)) = some .eq :=
    floatOrder?_self.2 ((FloatKind.isNaN_round j _).trans (isNaN_ofInt n))
  show (numericOrder? _ _ == some .eq) = true
  simp [rounded, numericOrder?, toInt?, floatMeet?, toFloat?, FloatKind.round_round, hself]

theorem equals_float {x y : Float} {i j : FloatKind} : (float x i).equals w (float y j) =
    (floatOrder? ((i.max j).round x) ((i.max j).round y) == some .eq) := by
  rfl

theorem equals_widened {x : Float} (h : (float x .f32).equals w (float x .f32) = true) :
    (float x .f64).equals w (float x .f32) = true := by
  rw [equals_float, beq_iff_eq] at h ⊢
  exact floatOrder?_self.2 ((FloatKind.isNaN_round _ x).symm.trans (floatOrder?_self.1 h))

theorem equalsAll_mapM {f : Value → Except Failure Value} {items us : List Value} (h : items.mapM f = .ok us)
    (hf : ∀ v u, v ∈ items → v.equals w v = true → f v = .ok u → u.equals w v = true)
    (hself : equalsAll w items items = true) : equalsAll w us items = true := by
  induction items generalizing us with
  | nil =>
    cases h
    rfl
  | cons v items ih =>
    rw [List.mapM_cons] at h
    obtain ⟨u, hu, h⟩ := exists_of_bind_ok h
    obtain ⟨us, hus, h⟩ := exists_of_bind_ok h
    cases h
    rw [equalsAll, Bool.and_eq_true] at hself ⊢
    exact ⟨hf v u List.mem_cons_self hself.1 hu,
      ih hus (fun v u hv => hf v u (List.mem_cons_of_mem _ hv)) hself.2⟩

theorem equals_convert (hself : v.equals w v = true) (h : v.convert w k = .ok u) : u.equals w v = true := by
  induction k generalizing v u with
  | list k ih =>
    obtain ⟨-, rfl⟩ | ⟨j, m, hk, -⟩ | ⟨j, m, i, hk, -⟩ | ⟨x, hk, -⟩ | ⟨element, items, us, hk, rfl, rfl, hus⟩ :=
      convert_cases h
    · exact hself
    · cases hk
    · cases hk
    · cases hk
    · cases hk
      rw [equals] at hself ⊢
      exact equalsAll_mapM hus (fun v u _ hv hu => ih hv hu) hself
  | _ =>
    obtain ⟨-, rfl⟩ | ⟨j, m, -, hm, rfl⟩ | ⟨j, m, i, -, rfl, rfl⟩ | ⟨x, -, rfl, rfl⟩ | ⟨_, _, _, hk, -⟩ :=
      convert_cases h
    · exact hself
    · exact equals_int hm
    · exact equals_rounded
    · exact equals_widened hself
    · cases hk

end Value

/-! ### What a kind takes -/

/-- Whether a value of one of two kinds can be given where they meet. An integer has to be in range, an enum value
is no float, and a list has a null only if its items may be null. -/
def Kind.Takes : Kind → Value → Prop
  | .int k, .int n j => j = k ∨ k.contains n = true
  | .int k, .enum _ n => k.contains n = true
  | .float _, .enum _ _ => False
  | .list element, .list items => ∀ v ∈ items, if v.isNull then element.isNullable = true else element.Takes v
  | _, _ => True

namespace Value

variable {w : World} {v u : Value} {k : Kind}

theorem convert_of_assignable (h : (v.kind w).assignable k = true) : v.convert w k = .ok v := by
  rw [convert.eq_def]
  exact if_pos h

theorem convert_any (v : Value) : v.convert w .any = .ok v :=
  convert_of_assignable (by cases v.kind w <;> rfl)

theorem mapM_ok_iff {f : Value → Except Failure Value} {items : List Value} :
    (∃ us, items.mapM f = .ok us) ↔ ∀ v ∈ items, ∃ u, f v = .ok u := by
  induction items with
  | nil => exact ⟨fun _ => nofun, fun _ => ⟨[], rfl⟩⟩
  | cons v items ih =>
    rw [List.forall_mem_cons, ← ih, List.mapM_cons]
    constructor
    · rintro ⟨us, h⟩
      obtain ⟨u, hu, h⟩ := exists_of_bind_ok h
      obtain ⟨us', hus, -⟩ := exists_of_bind_ok h
      exact ⟨⟨u, hu⟩, us', hus⟩
    · rintro ⟨⟨u, hu⟩, us, hus⟩
      exact ⟨u :: us, by rw [hu, hus]; rfl⟩

theorem eq_null (h : v.isNull = true) : v = null := by
  cases v with
  | null => rfl
  | _ => cases h

theorem convert_null : (∃ u, null.convert w k = .ok u) ↔ k.isNullable = true := by
  cases k with
  | bool | int | float | enum =>
    constructor
    · rintro ⟨_, ⟨⟩⟩
    · rintro ⟨⟩
  | _ => exact ⟨fun _ => rfl, fun _ => ⟨null, convert_of_assignable rfl⟩⟩

theorem convert_items (element : Kind) (items : List Value) :
    (list items).convert w (.list element) = (items.mapM (convert w element)).map list := by
  by_cases hany : Kind.any.assignable element = true
  · obtain rfl : element = .any := by
      cases element with
      | any => rfl
      | _ => cases hany
    have hitems : items.mapM (convert w .any) = .ok items := by
      induction items with
      | nil => rfl
      | cons v items ih =>
        rw [List.mapM_cons, convert_any, ih]
        rfl
    have hkind : ((list items).kind w).assignable (.list .any) = true := hany
    rw [convert_of_assignable hkind, hitems]
    rfl
  · have hassign : ¬ ((list items).kind w).assignable (.list element) = true := hany
    rw [convert.eq_def]
    simp only [hassign]
    cases items.mapM (convert w element) <;> rfl

theorem convert_list {element : Kind} {items : List Value} :
    (∃ u, (list items).convert w (.list element) = .ok u) ↔ ∀ v ∈ items, ∃ u, v.convert w element = .ok u := by
  rw [← mapM_ok_iff, convert_items]
  constructor
  · rintro ⟨u, h⟩
    obtain ⟨us, hus, -⟩ := exists_of_map_ok h
    exact ⟨us, hus⟩
  · rintro ⟨us, hus⟩
    exact ⟨list us, by rw [hus]; rfl⟩

theorem takes_of_kind (hk : ∀ element, k ≠ .list element) (h : v.kind w == k) : k.Takes v := by
  cases v with
  | int n j =>
    cases k with
    | int i => exact .inl (by simpa [Kind.beq_eq_same, Kind.same, kind] using h)
    | _ => cases h
  | enum t n =>
    cases k with
    | enum => trivial
    | _ => cases h
  | list items =>
    cases k with
    | list element => exact absurd rfl (hk element)
    | _ => cases h
  | _ => cases k <;> trivial

theorem convert_ok_iff (hv : v.isNull = false) (h : Inhabits w k v) : (∃ u, v.convert w k = .ok u) ↔ k.Takes v := by
  induction k generalizing v with
  | list element ih =>
    obtain ⟨items, rfl, hitems⟩ : ∃ items, v = list items ∧ ∀ x ∈ items, Inhabits w element x := by
      cases h with
      | null => cases hv
      | list hitems => exact ⟨_, rfl, hitems⟩
      | kind h =>
        cases v with
        | list items =>
          cases element with
          | any => exact ⟨items, rfl, fun _ _ => .any⟩
          | _ => cases h
        | object ref =>
          rw [kind_eq] at h
          cases h
        | _ => cases h
    rw [convert_list]
    refine forall₂_congr fun x hx => ?_
    cases hnull : x.isNull with
    | true =>
      rw [eq_null hnull]
      exact convert_null
    | false => exact ih hnull (hitems x hx)
  | any => exact ⟨fun _ => trivial, fun _ => ⟨v, convert_any v⟩⟩
  | _ =>
    cases h with
    | null => cases hv
    | kind h =>
      exact ⟨fun _ => takes_of_kind (by rintro _ ⟨⟩) h, fun _ => ⟨v, convert_of_assignable (Kind.assignable_of_same h)⟩⟩

end Value

end Stencil
