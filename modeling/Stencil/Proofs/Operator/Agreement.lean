import Stencil.Operator.Apply
import Stencil.Operator.Typing
import Stencil.Proofs.Numeric.Basic
import Stencil.Proofs.Value.Kind
set_option autoImplicit false

namespace Stencil

variable {w : World} {l r v : Value} {op : BinaryOp}

namespace Value

theorem integral_cases (w : World) (v : Value) :
    (∃ k n, (v.kind w).integral? = some k ∧ v.toInt? = some n) ∨
      ((v.kind w).integral? = none ∧ v.toInt? = none) := by
  cases v <;> simp [kind_eq, Kind.integral?, toInt?]

theorem promote_cases (w : World) (hl : l ≠ null) (hr : r ≠ null) :
    (∃ a b k, l.toInt? = some a ∧ r.toInt? = some b ∧ (l.kind w).promote (r.kind w) = some (.int k)) ∨
    (∃ a b k, l.toFloat? = some a ∧ r.toFloat? = some b ∧ floatMeet? l r = some k ∧
      (l.toInt? = none ∨ r.toInt? = none) ∧ (l.kind w).promote (r.kind w) = some (.float k)) ∨
    ((l.toInt? = none ∨ r.toInt? = none) ∧ floatMeet? l r = none ∧
      (l.kind w).promote (r.kind w) = none) := by
  cases l <;> cases r <;>
    simp [kind_eq, Kind.promote, Kind.integral?, toInt?, toFloat?, floatMeet?] at hl hr ⊢

end Value

inductive Agrees (w : World) (excused : Failure → Prop) : Except Misapplied Kind → Except Failure Value → Prop
  | kind {k : Kind} {v : Value} : v.kind w = k → Agrees w excused (.ok k) (.ok v)
  | null {k : Kind} : Agrees w excused (.ok k) (.ok .null)
  | any {v : Value} : Agrees w excused (.ok .any) (.ok v)
  | refused {m : Misapplied} {expected found : String} :
    Agrees w excused (.error m) (.error (.mismatch expected found))
  | failed {k : Kind} {f : Failure} : excused f → Agrees w excused (.ok k) (.error f)

namespace BinaryOp

/-- Two operands meet as floats, and one of them is not a number then. -/
def Unordered (w : World) (l r : Value) : Prop :=
  ∃ k a b, (l.kind w).promote (r.kind w) = some (.float k) ∧ l.toFloat? = some a ∧ r.toFloat? = some b ∧
    ((k.round a).isNaN ∨ (k.round b).isNaN)

/-- The failures of an operator whose operands have kinds it is for. -/
inductive Excused (op : BinaryOp) (w : World) (l r : Value) : Failure → Prop
  | divisionByZero : Excused op w l r .divisionByZero
  | invalidPattern (source : String) (flag : Option Char) : Excused op w l r (.invalidPattern source flag)
  | unordered (expected found : String) (hop : op.isRelational) (h : Unordered w l r) :
    Excused op w l r (.mismatch expected found)

theorem ofText_plain {source : String} {f : Failure} (h : Regex.ofText source "" = .error f) :
    f = .invalidPattern source none := by
  simp only [Regex.ofText, String.toList_empty, Regex.readFlags, bind, Except.bind] at h
  split at h
  · cases h
  · exact (Except.error.inj h).symm

def standsForPattern : Kind → Bool
  | .pattern | .text | .any | .null => true
  | _ => false

theorem kind_match (hop : op = matched ∨ op = unmatched) (l r : Kind) :
    op.kind l r = if standsForPattern r then .ok .bool else .error (.binary op l r) := by
  obtain rfl | rfl := hop <;> cases r <;> rfl

theorem isMatch_cases (w : World) (l r : Value) :
    (∃ b, isMatch w l r = .ok b ∧ standsForPattern (r.kind w) = true) ∨
    (∃ source flag, isMatch w l r = .error (.invalidPattern source flag) ∧
      standsForPattern (r.kind w) = true) ∨
    (∃ expected found, isMatch w l r = .error (.mismatch expected found) ∧
      standsForPattern (r.kind w) = false) := by
  cases r with
  | text s =>
    cases h : Regex.ofText s "" with
    | ok re => exact .inl ⟨_, by simp only [isMatch, h]; rfl, rfl⟩
    | error f =>
      obtain rfl := ofText_plain h
      exact .inr (.inl ⟨s, none, by simp only [isMatch, h]; rfl, rfl⟩)
  | null | pattern _ => exact .inl ⟨_, rfl, rfl⟩
  | _ => exact .inr (.inr ⟨_, _, rfl, by simp [Value.kind_eq, standsForPattern]⟩)

theorem match_agrees {f : Bool → Bool} (hop : op = matched ∨ op = unmatched) :
    Agrees w (Excused op w l r) (op.kind (l.kind w) (r.kind w)) ((isMatch w l r).map fun b => .bool (f b)) := by
  rw [kind_match hop]
  obtain ⟨b, hb, hk⟩ | ⟨source, flag, hb, hk⟩ | ⟨expected, found, hb, hk⟩ := isMatch_cases w l r
  · rw [hb, hk]
    exact .kind rfl
  · rw [hb, hk]
    exact .failed (.invalidPattern source flag)
  · rw [hb, hk]
    exact .refused

theorem order?_cases (hl : l ≠ .null) (hr : r ≠ .null) :
    (∃ o, l.order? r = some o ∧ comparable (l.kind w) (r.kind w)) ∨
    (l.order? r = none ∧ comparable (l.kind w) (r.kind w) ∧ Unordered w l r) ∨
    (l.order? r = none ∧ comparable (l.kind w) (r.kind w) = false) := by
  unfold Value.order?
  split
  · exact .inl ⟨_, rfl, rfl⟩
  · exact .inl ⟨_, rfl, rfl⟩
  · next htext hbool =>
    obtain ⟨a, b, k, ha, hb, hk⟩ | ⟨a, b, k, ha, hb, hm, hint, hk⟩ | ⟨hint, hm, hk⟩ :=
      Value.promote_cases w hl hr
    · exact .inl ⟨compare a b, by simp [Value.numericOrder?, ha, hb], by simp [comparable, hk]⟩
    · have hc : comparable (l.kind w) (r.kind w) := by simp [comparable, hk]
      have ho : l.numericOrder? r = floatOrder? (k.round a) (k.round b) := by
        unfold Value.numericOrder?
        split
        · simp_all
        · simp [ha, hb, hm]
      cases hf : floatOrder? (k.round a) (k.round b) with
      | some o => exact .inl ⟨o, ho.trans hf, hc⟩
      | none => exact .inr (.inl ⟨ho.trans hf, hc, k, a, b, hk, ha, hb, isNaN_of_floatOrder?_eq_none hf⟩)
    · refine .inr (.inr ⟨?_, ?_⟩)
      · unfold Value.numericOrder?
        split
        · simp_all
        · simp [hm]
      · have hnull : (l.kind w).isNull = false ∧ (r.kind w).isNull = false := by
          constructor
          · cases l <;> simp_all [Value.kind_eq, Kind.isNull]
          · cases r <;> simp_all [Value.kind_eq, Kind.isNull]
        unfold comparable
        rw [hnull.1, hnull.2, hk]
        split
        · next h₁ h₂ =>
          obtain ⟨s, rfl⟩ := Value.eq_text_of_kind h₁
          obtain ⟨t, rfl⟩ := Value.eq_text_of_kind h₂
          exact absurd rfl (htext s t rfl)
        · next h₁ h₂ =>
          obtain ⟨s, rfl⟩ := Value.eq_bool_of_kind h₁
          obtain ⟨t, rfl⟩ := Value.eq_bool_of_kind h₂
          exact absurd rfl (hbool s t rfl)
        · rfl

theorem kind_relational (hop : op.isRelational) (l r : Kind) : op.kind l r =
    if l.isAny || r.isAny then .ok .bool
    else if comparable l r then .ok .bool else .error (.binary op l r) := by
  cases op with
  | lt | le | gt | ge => rfl
  | _ => cases hop

theorem relational_null (h : l.isNull || r.isNull) : op.relational w l r = .ok (.bool false) := by
  have ho : l.order? r = none := by
    cases l <;> cases r <;>
      simp_all [Value.isNull, Value.order?, Value.numericOrder?, Value.toInt?, Value.floatMeet?]
  simp [relational, ho, h]

theorem relational_agrees (hop : op.isRelational) :
    Agrees w (Excused op w l r) (op.kind (l.kind w) (r.kind w)) (op.relational w l r) := by
  rw [kind_relational hop, Value.isAny_kind, Value.isAny_kind, Bool.or_false, if_neg (by simp)]
  by_cases hnull : l.isNull || r.isNull
  · have hc : comparable (l.kind w) (r.kind w) := by
      simp only [comparable, Value.isNull_kind, hnull, Bool.true_or]
    rw [relational_null hnull, if_pos hc]
    exact .kind rfl
  · have hl : l ≠ .null := by rintro rfl; simp [Value.isNull] at hnull
    have hr : r ≠ .null := by rintro rfl; simp [Value.isNull] at hnull
    obtain ⟨o, ho, hc⟩ | ⟨ho, hc, hu⟩ | ⟨ho, hc⟩ := @order?_cases w l r hl hr
    · rw [if_pos hc]
      simp only [relational, ho]
      exact .kind rfl
    · rw [if_pos hc]
      simp only [relational, ho, if_neg hnull]
      exact .failed (.unordered _ _ hop hu)
    · rw [if_neg (by simp [hc])]
      simp only [relational, ho, if_neg hnull]
      exact .refused

theorem onInts_agrees (a b : Int) (k : IntKind) :
    Agrees w (Excused op w l r) (.ok (.int k)) (op.onInts a b k) := by
  unfold onInts
  dsimp only
  split
  · exact .kind rfl
  · exact .kind rfl
  · exact .kind rfl
  · split
    · exact .failed .divisionByZero
    · exact .kind rfl
  · split
    · exact .failed .divisionByZero
    · exact .kind rfl

theorem kind_onFloats (a b : Float) (k : FloatKind) : (op.onFloats a b k).kind w = .float k := by
  simp only [onFloats]
  split <;> rfl

def Joins (op : BinaryOp) (l r : Kind) : Prop := op = add ∧ (l = .text ∨ r = .text)

theorem kind_arithmetic (hop : op.isArithmetic) {l r : Kind} (h : ¬op.Joins l r) : op.kind l r =
    if l.isAny || r.isAny || l.isNull || r.isNull then .ok .any
    else if takesNumber l && takesNumber r then
      match l.promote r with
      | some k => .ok k
      | none => .error (.binary op l r)
    else .error (.binary op l r) := by
  cases op with
  | add =>
    simp only [kind]
    split
    · exact absurd ⟨rfl, .inl rfl⟩ h
    · exact absurd ⟨rfl, .inr rfl⟩ h
    · rfl
  | mul | div | rem | sub => rfl
  | _ => cases hop

theorem apply_arithmetic (hop : op.isArithmetic) (h : ¬op.Joins (l.kind w) (r.kind w)) :
    op.apply w l r = op.arithmetic w l r := by
  cases op with
  | add =>
    simp only [apply]
    split
    · exact absurd ⟨rfl, .inl rfl⟩ h
    · exact absurd ⟨rfl, .inr rfl⟩ h
    · rfl
  | mul | div | rem | sub => rfl
  | _ => cases hop

theorem kind_join {l r : Kind} (h : op.Joins l r) : op.kind l r = .ok .text := by
  obtain ⟨rfl, rfl | rfl⟩ := h
  · rfl
  · cases l <;> rfl

theorem apply_join (h : op.Joins (l.kind w) (r.kind w)) : ∃ s, op.apply w l r = .ok (.text s) := by
  obtain ⟨rfl, h | h⟩ := h
  · obtain ⟨s, rfl⟩ := Value.eq_text_of_kind h
    exact ⟨_, rfl⟩
  · obtain ⟨s, rfl⟩ := Value.eq_text_of_kind h
    cases l <;> exact ⟨_, rfl⟩

theorem takesNumber_kind (w : World) (v : Value) : takesNumber (v.kind w) = v.toFloat?.isSome := by
  cases v <;> simp [Value.kind_eq, takesNumber, Value.toFloat?]

theorem isSome_toFloat? {n : Int} (h : v.toInt? = some n) : v.toFloat?.isSome := by
  cases v <;> simp_all [Value.toInt?, Value.toFloat?]

theorem arithmetic_agrees (hop : op.isArithmetic) (h : ¬op.Joins (l.kind w) (r.kind w)) :
    Agrees w (Excused op w l r) (op.kind (l.kind w) (r.kind w)) (op.arithmetic w l r) := by
  rw [kind_arithmetic hop h, Value.isAny_kind, Value.isAny_kind, Value.isNull_kind, Value.isNull_kind,
    Bool.or_false, Bool.false_or]
  by_cases hnull : l.isNull || r.isNull
  · simp only [arithmetic, if_pos hnull]
    exact .null
  · have hl : l ≠ .null := by rintro rfl; simp [Value.isNull] at hnull
    have hr : r ≠ .null := by rintro rfl; simp [Value.isNull] at hnull
    rw [if_neg hnull, takesNumber_kind, takesNumber_kind]
    obtain ⟨a, b, k, ha, hb, hk⟩ | ⟨a, b, k, ha, hb, -, -, hk⟩ | ⟨-, -, hk⟩ := Value.promote_cases w hl hr
    · have hn : (l.toFloat?.isSome && r.toFloat?.isSome) = true := by
        rw [isSome_toFloat? ha, isSome_toFloat? hb]; rfl
      simp only [arithmetic, if_neg hnull, hn, if_true, hk, ha, hb]
      exact onInts_agrees a b k
    · simp only [arithmetic, if_neg hnull, hk, ha, hb, Option.isSome_some, Bool.and_self, if_true]
      exact .kind (kind_onFloats a b k)
    · simp only [arithmetic, if_neg hnull, hk, ite_self]
      exact .refused

theorem kind_bitwise (hop : op.isBitwise) (l r : Kind) : op.kind l r =
    if l.isAny || r.isAny then .ok .any
    else match l, r with
      | .bool, .bool => .ok .bool
      | .enum a, .enum b =>
        if a.name.full == b.name.full then .ok (.enum a) else .ok (.int (a.underlying.promote b.underlying))
      | j, k =>
        match j.integral?, k.integral? with
        | some a, some b => .ok (.int (a.promote b))
        | _, _ => .error (.binary op l r) := by
  cases op with
  | bitAnd | bitXor | bitOr => rfl
  | _ => cases hop

theorem apply_bitwise (hop : op.isBitwise) : op.apply w l r = op.bitwise w l r := by
  cases op with
  | bitAnd | bitXor | bitOr => rfl
  | _ => cases hop

theorem bitwise_ints {j k : IntKind} {a b : Int}
    (h : ∀ s t, l.kind w = .enum s → r.kind w = .enum t → False) (hj : (l.kind w).integral? = some j)
    (ha : l.toInt? = some a) (hk : (r.kind w).integral? = some k) (hb : r.toInt? = some b) :
    op.bitwise w l r = .ok (.wrapped (op.onBits a b) (j.promote k)) := by
  unfold bitwise
  split
  · cases ha
  · exact (h _ _ rfl rfl).elim
  · simp only [hj, ha, hk, hb]

theorem bitwise_refused (h : l.kind w = .bool → r.kind w = .bool → False)
    (hi : (l.kind w).integral? = none ∨ (r.kind w).integral? = none) :
    ∃ expected found, op.bitwise w l r = .error (.mismatch expected found) := by
  unfold bitwise
  split
  · exact (h rfl rfl).elim
  · simp [Value.kind, Kind.integral?] at hi
  · split
    · simp_all
    · exact ⟨_, _, rfl⟩

theorem bitwise_agrees (hop : op.isBitwise) :
    Agrees w (Excused op w l r) (op.kind (l.kind w) (r.kind w)) (op.bitwise w l r) := by
  rw [kind_bitwise hop, Value.isAny_kind, Value.isAny_kind, Bool.or_false, if_neg (by simp)]
  split
  · next hl hr =>
    obtain ⟨a, rfl⟩ := Value.eq_bool_of_kind hl
    obtain ⟨b, rfl⟩ := Value.eq_bool_of_kind hr
    exact .kind rfl
  · next hl hr =>
    obtain ⟨a, rfl⟩ := Value.eq_enum_of_kind hl
    obtain ⟨b, rfl⟩ := Value.eq_enum_of_kind hr
    simp only [bitwise]
    split <;> exact .kind rfl
  · next hbool henum =>
    obtain ⟨j, a, hj, ha⟩ | ⟨hj, -⟩ := Value.integral_cases w l
    · obtain ⟨k, b, hk, hb⟩ | ⟨hk, -⟩ := Value.integral_cases w r
      · rw [bitwise_ints henum hj ha hk hb, hj, hk]
        exact .kind rfl
      · obtain ⟨expected, found, h⟩ := bitwise_refused hbool (.inr hk)
        rw [h, hj, hk]
        exact .refused
    · obtain ⟨expected, found, h⟩ := bitwise_refused hbool (.inl hj)
      rw [h, hj]
      exact .refused

theorem apply_agrees (hop : op ≠ coalesce) :
    Agrees w (Excused op w l r) (op.kind (l.kind w) (r.kind w)) (op.apply w l r) := by
  cases op with
  | eq | ne | and | or => exact .kind rfl
  | matched => exact @match_agrees w l r matched id (.inl rfl)
  | unmatched => exact match_agrees (.inr rfl)
  | lt | le | gt | ge => exact relational_agrees rfl
  | bitAnd | bitXor | bitOr => exact bitwise_agrees rfl
  | mul | div | rem | sub => exact arithmetic_agrees rfl (by simp [Joins])
  | add =>
    by_cases h : add.Joins (l.kind w) (r.kind w)
    · obtain ⟨s, hs⟩ := @apply_join w l r add h
      rw [kind_join h, hs]
      exact .kind rfl
    · rw [apply_arithmetic rfl h]
      exact arithmetic_agrees rfl h
  | coalesce => exact absurd rfl hop

end BinaryOp

namespace UnaryOp

theorem apply_agrees (op : UnaryOp) (w : World) (v : Value) :
    Agrees w (fun _ => False) (op.kind (v.kind w)) (op.apply w v) := by
  cases op with
  | not => exact .kind rfl
  | neg | plus =>
    cases v with
    | null => exact .null
    | int | float | enum => exact .kind rfl
    | object ref =>
      simp only [kind, apply, Value.kind_eq, Kind.integral?, Value.toInt?]
      exact .refused
    | _ => exact .refused
  | bitNot =>
    cases v with
    | null => exact .null
    | int | enum => exact .kind rfl
    | object ref =>
      simp only [kind, apply, Value.kind_eq, Kind.integral?, Value.toInt?]
      exact .refused
    | _ => exact .refused

end UnaryOp

namespace Agrees

variable {excused : Failure → Prop} {static : Except Misapplied Kind} {result : Except Failure Value}

theorem value_kind (h : Agrees w excused static result) {k : Kind} (hk : static = .ok k)
    (hv : result = .ok v) : v = .null ∨ v.kind w = k ∨ k = .any := by
  cases h with
  | kind hkind => cases hk; cases hv; exact .inr (.inl hkind)
  | null => cases hv; exact .inl rfl
  | any => cases hk; exact .inr (.inr rfl)
  | refused => cases hk
  | failed => cases hv

theorem mismatch (h : Agrees w excused static result) {m : Misapplied} (hm : static = .error m) :
    ∃ expected found, result = .error (.mismatch expected found) := by
  cases h with
  | refused => exact ⟨_, _, rfl⟩
  | _ => cases hm

theorem excuse (h : Agrees w excused static result) {k : Kind} {f : Failure} (hk : static = .ok k)
    (hf : result = .error f) : excused f := by
  cases h with
  | failed hex => cases hf; exact hex
  | refused => cases hk
  | _ => cases hf

end Agrees

/-- Kinds foretell what operators give. A result is null or of the kind foretold, where one is; an operator
is refused on kinds exactly where it fails on their values for a mismatch of kinds, but for comparisons of
floats with what is not a number. -/
theorem operators_agree_with_kinds (w : World) :
    (∀ (op : BinaryOp) (l r : Value), op ≠ .coalesce →
      (∀ v k, op.apply w l r = .ok v → op.kind (l.kind w) (r.kind w) = .ok k →
        v = .null ∨ v.kind w = k ∨ k = .any) ∧
      (∀ m, op.kind (l.kind w) (r.kind w) = .error m →
        ∃ expected found, op.apply w l r = .error (.mismatch expected found)) ∧
      (∀ k f, op.kind (l.kind w) (r.kind w) = .ok k → op.apply w l r = .error f →
        f = .divisionByZero ∨ (∃ source flag, f = .invalidPattern source flag) ∨
        ((∃ expected found, f = .mismatch expected found) ∧ op.isRelational ∧ BinaryOp.Unordered w l r))) ∧
    (∀ (op : UnaryOp) (v : Value),
      (∀ k, op.kind (v.kind w) = .ok k →
        ∃ u, op.apply w v = .ok u ∧ (u = .null ∨ u.kind w = k ∨ k = .any)) ∧
      (∀ m, op.kind (v.kind w) = .error m →
        ∃ expected found, op.apply w v = .error (.mismatch expected found))) := by
  refine ⟨?_, ?_⟩
  · intro op l r hop
    have h := @BinaryOp.apply_agrees w l r op hop
    refine ⟨fun v k hv hk => h.value_kind hk hv, fun m hm => h.mismatch hm, ?_⟩
    intro k f hk hf
    cases h.excuse hk hf with
    | divisionByZero => exact .inl rfl
    | invalidPattern source flag => exact .inr (.inl ⟨source, flag, rfl⟩)
    | unordered expected found hop hu => exact .inr (.inr ⟨⟨expected, found, rfl⟩, hop, hu⟩)
  · intro op v
    have h := op.apply_agrees w v
    refine ⟨?_, fun m hm => h.mismatch hm⟩
    intro k hk
    cases hu : op.apply w v with
    | ok u => exact ⟨u, rfl, h.value_kind hk hu⟩
    | error f => exact (h.excuse hk hu).elim

/-- A signed and an unsigned integer of one width meet in the kind of twice the width. -/
theorem operators_agree_with_kinds_widened :
    BinaryOp.sub ≠ .coalesce ∧ BinaryOp.sub.kind (.int .i32) (.int .u32) = .ok (.int .i64) ∧
      BinaryOp.sub.apply .empty (.int 1 .i32) (.int 2 .u32) = .ok (.int (-1) .i64) ∧
      (Value.int (-1) .i64 = .null ∨ (Value.int (-1) .i64).kind .empty = .int .i64 ∨ Kind.int .i64 = .any) :=
  ⟨by decide, rfl, rfl,
    ((operators_agree_with_kinds .empty).1 .sub (.int 1 .i32) (.int 2 .u32) (by decide)).1 _ _ rfl rfl⟩

end Stencil
