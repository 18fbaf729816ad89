import Stencil.World
set_option autoImplicit false

namespace Stencil

def World.typeOf (w : World) (ref : Nat) : ObjectType :=
  match (w.object ref).type with
  | .record => .record ref
  | .declared id name => .declared id name

namespace Value

variable {w : World} {v : Value}

theorem kind_eq (w : World) (v : Value) : v.kind w =
    match v with
    | null => .null
    | bool _ => .bool
    | int _ k => .int k
    | float _ k => .float k
    | text _ => .text
    | pattern _ => .pattern
    | enum t _ => .enum t
    | list _ => .list .any
    | object ref => .object (w.typeOf ref)
    | function _ => .function := by
  cases v with
  | object ref =>
    simp only [kind, World.typeOf]
    cases (w.object ref).type <;> rfl
  | _ => rfl

theorem eq_bool_of_kind (h : v.kind w = .bool) : ∃ b, v = bool b := by
  cases v <;> simp_all [kind_eq]

theorem eq_text_of_kind (h : v.kind w = .text) : ∃ s, v = text s := by
  cases v <;> simp_all [kind_eq]

theorem eq_enum_of_kind {t : EnumType} (h : v.kind w = .enum t) : ∃ n, v = enum t n := by
  cases v <;> simp_all [kind_eq]

theorem isAny_kind (w : World) (v : Value) : (v.kind w).isAny = false := by
  cases v <;> simp [kind_eq, Kind.isAny]

theorem isNull_kind (w : World) (v : Value) : (v.kind w).isNull = v.isNull := by
  cases v <;> simp [kind_eq, Kind.isNull, isNull]

end Value

theorem IntKind.contains_of_within {i j : IntKind} {n : Int} (hij : i.within j = true) (hn : i.contains n = true) :
    j.contains n = true := by
  simp only [within, contains, Bool.and_eq_true, decide_eq_true_eq] at *
  omega

def EnumType.Distinct (known : EnumType → Prop) : Prop :=
  ∀ a b, known a → known b → a.name.full = b.name.full → a = b

namespace Kind

variable {known : EnumType → Prop}

def Over (known : EnumType → Prop) : Kind → Prop
  | enum t => known t
  | list k => k.Over known
  | object _ => False
  | _ => True

theorem beq_eq_same (a b : Kind) : (a == b) = a.same b := rfl

theorem same_refl (k : Kind) : k == k := by
  induction k with
  | list k ih => exact ih
  | _ => simp [beq_eq_same, same]

theorem same_comm (a b : Kind) : (a == b) = (b == a) := by
  simp only [beq_eq_same]
  induction a generalizing b with
  | list a ih =>
    cases b with
    | list b => exact ih b
    | _ => rfl
  | int i =>
    cases b with
    | int j => exact Bool.beq_comm
    | _ => rfl
  | float i =>
    cases b with
    | float j => exact Bool.beq_comm
    | _ => rfl
  | enum s =>
    cases b with
    | enum t => exact Bool.beq_comm
    | _ => rfl
  | object s =>
    cases b with
    | object t => exact Bool.beq_comm
    | _ => rfl
  | _ => cases b <;> rfl

theorem same_trans {a b c : Kind} (hab : a == b) (hbc : b == c) : a == c := by
  simp only [beq_eq_same] at *
  induction a generalizing b c with
  | list a ih =>
    cases b with
    | list b =>
      cases c with
      | list c => exact ih hab hbc
      | _ => cases hbc
    | _ => cases hab
  | _ => cases b <;> cases c <;> simp_all [same]

theorem eq_of_same (hnames : EnumType.Distinct known) {a b : Kind} (ha : a.Over known) (hb : b.Over known)
    (h : a == b) : a = b := by
  induction a generalizing b with
  | list a ih =>
    cases b with
    | list b => rw [@ih b ha hb h]
    | _ => cases h
  | enum s =>
    cases b with
    | enum t => rw [hnames s t ha hb (by simpa [beq_eq_same, same] using h)]
    | _ => cases h
  | object => exact ha.elim
  | _ => cases b <;> simp_all [beq_eq_same, same]

theorem assignable_cases {a b : Kind} (h : a.assignable b) :
    b = any ∨ a = null ∨ (∃ j k, a = list j ∧ b = list k ∧ j.assignable k) ∨ a == b := by
  unfold assignable at h
  split at h
  · exact .inl rfl
  · exact .inr (.inl rfl)
  · exact .inr (.inr (.inl ⟨_, _, rfl, rfl, h⟩))
  · exact .inr (.inr (.inr h))

theorem assignable_of_same {a b : Kind} (h : a == b) : a.assignable b = true := by
  induction a generalizing b with
  | list a ih =>
    cases b with
    | list b => exact ih h
    | _ => cases h
  | null =>
    cases b with
    | null => rfl
    | _ => cases h
  | _ =>
    cases b with
    | any => rfl
    | _ => exact h

end Kind

end Stencil
