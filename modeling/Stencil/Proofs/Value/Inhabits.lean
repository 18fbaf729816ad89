import Stencil.Proofs.Except
import Stencil.Proofs.Value.Kind
import Stencil.Run
set_option autoImplicit false

namespace Stencil

/-- A value is of a kind when it is null, or when the kind is its own or says nothing. A list is also of
the kinds of lists that all its items fit in. -/
inductive Inhabits (w : World) : Kind → Value → Prop
  | null {k : Kind} : Inhabits w k .null
  | any {v : Value} : Inhabits w .any v
  | list {k : Kind} {items : List Value} : (∀ v ∈ items, Inhabits w k v) → Inhabits w (.list k) (.list items)
  | kind {k : Kind} {v : Value} : v.kind w == k → Inhabits w k v

theorem Inhabits.of_same {w : World} {v : Value} {a b : Kind} (h : Inhabits w a v) (hab : a == b) : Inhabits w b v := by
  induction h generalizing b with
  | null => exact .null
  | any =>
    cases b with
    | any => exact .any
    | _ => cases hab
  | list _ ih =>
    cases b with
    | list b => exact .list fun x hx => ih x hx hab
    | _ => cases hab
  | kind h => exact .kind (Kind.same_trans h hab)

/-- The enum types whose values stand in a value where its kind asks for one. -/
inductive Value.EnumAt (t : EnumType) : Kind → Value → Prop
  | enum (asked : EnumType) (n : Int) : EnumAt t (.enum asked) (.enum t n)
  | list {k : Kind} {items : List Value} {v : Value} :
    v ∈ items → EnumAt t k v → EnumAt t (.list k) (.list items)

/-- A value is of a kind without objects, its enum types being the same and not just of the same name. -/
inductive Has : Kind → Value → Prop
  | null {k : Kind} : Has k .null
  | any {v : Value} : Has .any v
  | list {k : Kind} {items : List Value} : (∀ v ∈ items, Has k v) → Has (.list k) (.list items)
  | bool (b : Bool) : Has .bool (.bool b)
  | int (n : Int) (k : IntKind) : Has (.int k) (.int n k)
  | float (x : Float) (k : FloatKind) : Has (.float k) (.float x k)
  | text (s : String) : Has .text (.text s)
  | pattern (r : Regex) : Has .pattern (.pattern r)
  | enum (t : EnumType) (n : Int) : Has (.enum t) (.enum t n)
  | function (ref : Nat) : Has .function (.function ref)

namespace Has

variable {w : World} {v u : Value} {k : Kind} {known : EnumType → Prop}

theorem inhabits (h : Has k v) : Inhabits w k v := by
  induction h with
  | null => exact .null
  | any => exact .any
  | list _ ih => exact .list ih
  | _ => exact .kind (Kind.same_refl _)

theorem of_kind (hk : (v.kind w).Over known) : Has (v.kind w) v := by
  cases v with
  | null => exact .null
  | list items => exact .list fun _ _ => .any
  | object ref => rw [Value.kind_eq] at hk; exact hk.elim
  | bool b => exact .bool b
  | int n k => exact .int n k
  | float x k => exact .float x k
  | text s => exact .text s
  | pattern r => exact .pattern r
  | enum t n => exact .enum t n
  | function ref => exact .function ref

/-- Inhabiting a kind is having it, where full names tell enum types apart. -/
theorem of_inhabits (hnames : EnumType.Distinct known) (hk : k.Over known)
    (hv : ∀ t, v.EnumAt t k → known t) (h : Inhabits w k v) : Has k v := by
  induction h with
  | null => exact .null
  | any => exact .any
  | list _ ih => exact .list fun x hx => ih x hx hk fun t ht => hv t (.list hx ht)
  | @kind k v h =>
    have hown : (v.kind w).Over known := by
      cases v with
      | enum t n =>
        cases k with
        | enum asked => exact hv t (.enum asked n)
        | _ => cases h
      | object ref =>
        rw [Value.kind_eq] at h
        cases k with
        | object => exact hk.elim
        | _ => cases h
      | _ => trivial
    rw [← Kind.eq_of_same hnames hown hk h]
    exact of_kind hown

theorem known_of_enumAt {t : EnumType} (h : Has k v) (hk : k.Over known) (ht : v.EnumAt t k) : known t := by
  induction ht with
  | enum asked n =>
    cases h
    exact hk
  | list hv _ ih =>
    cases h with
    | list hitems => exact ih (hitems _ hv) hk

/-- A value that is not null has the kind it has, unless that says nothing or tells what a list holds. -/
theorem kind_cases (w : World) (h : Has k v) :
    v = .null ∨ k = .any ∨ (∃ element, k = .list element) ∨ v.kind w = k := by
  cases h with
  | null => exact .inl rfl
  | any => exact .inr (.inl rfl)
  | list => exact .inr (.inr (.inl ⟨_, rfl⟩))
  | _ => exact .inr (.inr (.inr rfl))

theorem assign (hnames : EnumType.Distinct known) {a b : Kind} (ha : a.Over known) (hb : b.Over known)
    (hab : a.assignable b) (h : Has a v) : Has b v := by
  induction a generalizing b v with
  | list a ih =>
    obtain rfl | hnull | ⟨j, k, hj, rfl, hjk⟩ | heq := Kind.assignable_cases hab
    · exact .any
    · cases hnull
    · cases hj
      cases h with
      | null => exact .null
      | list hitems => exact .list fun x hx => ih ha hb hjk (hitems x hx)
    · exact Kind.eq_of_same hnames ha hb heq ▸ h
  | null => cases h; exact .null
  | _ =>
    obtain rfl | hnull | ⟨_, _, hj, -, -⟩ | heq := Kind.assignable_cases hab
    · exact .any
    · cases hnull
    · cases hj
    · exact Kind.eq_of_same hnames ha hb heq ▸ h

end Has

def Kind.Plain (k : Kind) : Prop := k.Over fun _ => False

theorem Kind.Plain.over {k : Kind} {known : EnumType → Prop} (h : k.Plain) : k.Over known := by
  induction k with
  | list k ih => exact ih h
  | enum | object => exact h.elim
  | _ => trivial

/-- Without enum types, what can stand where a kind is asked for is of that kind. -/
theorem Has.of_assignable {w : World} {v : Value} {k : Kind} (hk : k.Plain)
    (h : (v.kind w).assignable k) : Has k v := by
  by_cases hany : k = .any
  · exact hany ▸ .any
  have hv : (v.kind w).Over fun _ => False := by
    cases v with
    | enum t n =>
      obtain rfl | hnull | ⟨_, _, hj, -, -⟩ | heq := Kind.assignable_cases h
      · exact absurd rfl hany
      · cases hnull
      · cases hj
      · cases k with
        | enum => exact hk
        | _ => cases heq
    | object ref =>
      rw [Value.kind_eq] at h
      obtain rfl | hnull | ⟨_, _, hj, -, -⟩ | heq := Kind.assignable_cases h
      · exact absurd rfl hany
      · cases hnull
      · cases hj
      · cases k with
        | object => exact hk.elim
        | _ => cases heq
    | _ => trivial
  exact .assign (fun _ _ hs => hs.elim) hv hk h (.of_kind hv)

namespace Value

variable {w : World} {v u : Value}

/-- A conversion keeps the value, makes a number of it, or converts the items of a list. -/
theorem convert_cases {k : Kind} (h : v.convert w k = .ok u) :
    ((v.kind w).assignable k ∧ u = v) ∨ (∃ j n, k = .int j ∧ v.toInt? = some n ∧ u = int n j) ∨
    (∃ j n i, k = .float j ∧ v = int n i ∧ u = rounded (Decimal.ofInt n) j) ∨
    (∃ x, k = .float .f64 ∧ v = float x .f32 ∧ u = float x .f64) ∨
    ∃ element items us, k = .list element ∧ v = list items ∧ u = list us ∧
      items.mapM (convert w element) = .ok us := by
  rw [convert.eq_def] at h
  by_cases hassign : (v.kind w).assignable k
  · simp only [hassign, if_true] at h
    cases h
    exact .inl ⟨hassign, rfl⟩
  · simp only [hassign] at h
    cases k with
    | int j =>
      refine .inr (.inl ⟨j, ?_⟩)
      cases v with
      | int n _ | enum _ n =>
        by_cases hn : j.contains n
        · simp only [hn, if_true] at h
          cases h
          exact ⟨n, rfl, rfl, rfl⟩
        · simp [hn] at h
      | _ => cases h
    | float j =>
      cases v with
      | int n i => cases h; exact .inr (.inr (.inl ⟨j, n, i, rfl, rfl, rfl⟩))
      | float x i =>
        cases i with
        | f32 =>
          by_cases hj : j = .f64
          · simp only [hj, if_true] at h
            cases h
            exact .inr (.inr (.inr (.inl ⟨x, by rw [hj], rfl, rfl⟩)))
          · simp [hj] at h
        | f64 => cases h
      | _ => cases h
    | list element =>
      cases v with
      | list items =>
        obtain ⟨us, hus, hu⟩ := exists_of_bind_ok h
        cases hu
        exact .inr (.inr (.inr (.inr ⟨element, items, us, rfl, rfl, rfl, hus⟩)))
      | _ => cases h
    | _ => cases h

/-- A conversion gives a value of the kind asked for. Enum types of one name can take each other's place,
so what is converted must be of that kind already unless no enum type occurs in it. -/
theorem has_convert {k : Kind} (h : Has k v ∨ k.Plain) (hu : v.convert w k = .ok u) : Has k u := by
  induction k generalizing v u with
  | list k ih =>
    obtain ⟨hassign, rfl⟩ | ⟨j, n, hj, -⟩ | ⟨j, n, i, hj, -⟩ | ⟨x, hj, -⟩ |
      ⟨element, items, us, hk, rfl, rfl, hus⟩ := convert_cases hu
    · exact h.elim id fun hk => .of_assignable hk hassign
    · cases hj
    · cases hj
    · cases hj
    · cases hk
      refine .list fun x hx => ?_
      obtain ⟨y, hy, hyx⟩ := exists_of_mapM_ok hus x hx
      refine ih ?_ hyx
      obtain h | h := h
      · cases h with
        | list hitems => exact .inl (hitems y hy)
      · exact .inr h
  | _ =>
    obtain ⟨hassign, rfl⟩ | ⟨j, n, hj, -, rfl⟩ | ⟨j, n, i, hj, -, rfl⟩ | ⟨x, hj, -, rfl⟩ | ⟨_, _, _, hk, -⟩ :=
      convert_cases hu
    · exact h.elim id fun hk => .of_assignable hk hassign
    · cases hj <;> exact .int n _
    · cases hj <;> exact .float _ _
    · cases hj <;> exact .float x _
    · cases hk

theorem has_fitted {k : Kind} (h : Has k v ∨ k.Plain) (hu : v.fitted w k = .ok u) : Has k u := by
  unfold fitted at hu
  split at hu
  · next hnull =>
    cases hu
    cases v with
    | null => exact .null
    | _ =>
      cases k with
      | any => exact .any
      | _ => cases hnull
  · exact has_convert h hu

end Value

end Stencil
