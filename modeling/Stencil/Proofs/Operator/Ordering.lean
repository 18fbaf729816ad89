import Stencil.Proofs.Operator.Agreement
/-!
Equality and order of values never contradict each other. Both are told by one numeric order, which is that of the
integers where no float takes part, and which swaps with its operands; so equality is symmetric on all values.
-/
set_option autoImplicit false

namespace Stencil

theorem floatOrder?_swap (a b : Float) : floatOrder? b a = (floatOrder? a b).map Ordering.swap := by
  rw [floatOrder?_eq_compare, floatOrder?_eq_compare, compare_swap]

namespace Value

variable {w : World} {l r : Value} {o : Ordering}

theorem floatMeet?_comm (l r : Value) : floatMeet? l r = floatMeet? r l := by
  cases l with
  | float x a =>
    cases r with
    | float y b => cases a <;> cases b <;> rfl
    | _ => rfl
  | _ => cases r <;> rfl

theorem numericOrder?_swap (l r : Value) : r.numericOrder? l = (l.numericOrder? r).map Ordering.swap := by
  have hfloats : (do
      let k ← floatMeet? r l
      floatOrder? (k.round (← r.toFloat?)) (k.round (← l.toFloat?))) = (do
      let k ← floatMeet? l r
      floatOrder? (k.round (← l.toFloat?)) (k.round (← r.toFloat?))).map Ordering.swap := by
    rw [floatMeet?_comm r l]
    cases floatMeet? l r with
    | none => rfl
    | some k =>
      cases l.toFloat? with
      | none => cases r.toFloat? <;> rfl
      | some x =>
        cases r.toFloat? with
        | none => rfl
        | some y => exact floatOrder?_swap _ _
  unfold numericOrder?
  cases l.toInt? with
  | none => cases r.toInt? <;> exact hfloats
  | some a =>
    cases r.toInt? with
    | none => exact hfloats
    | some b => exact congrArg some (Int.compare_swap a b).symm

/-- Values that have a numeric order equal each other where the order says so. -/
theorem equals_of_numericOrder? (h : l.numericOrder? r = some o) : l.equals w r = (o == .eq) := by
  have hnumbers : l.toFloat?.isSome ∧ r.toFloat?.isSome := by
    unfold numericOrder? at h
    split at h
    · next ha hb => exact ⟨BinaryOp.isSome_toFloat? ha, BinaryOp.isSome_toFloat? hb⟩
    · obtain ⟨k, -, h⟩ := Option.bind_eq_some_iff.1 h
      obtain ⟨x, hx, h⟩ := Option.bind_eq_some_iff.1 h
      obtain ⟨y, hy, -⟩ := Option.bind_eq_some_iff.1 h
      simp [hx, hy]
  have hequals : l.equals w r = (l.numericOrder? r == some .eq) := by
    cases l with
    | int | float | enum =>
      cases r with
      | int | float | enum => rfl
      | _ => cases hnumbers.2
    | _ => cases hnumbers.1
  rw [hequals, h]
  rfl

theorem equals_of_order? (h : l.order? r = some o) : l.equals w r = (o == .eq) := by
  unfold order? at h
  split at h
  · next a b =>
    cases h
    rw [Bool.eq_iff_iff, beq_iff_eq, Std.compare_eq_iff_eq]
    exact beq_iff_eq
  · next a b =>
    cases h
    cases a <;> cases b <;> rfl
  · exact equals_of_numericOrder? h

theorem numericOrder?_eq_comm (l r : Value) : (l.numericOrder? r == some .eq) = (r.numericOrder? l == some .eq) := by
  rw [numericOrder?_swap r l]
  cases r.numericOrder? l with
  | none => rfl
  | some o => cases o <;> rfl

mutual

theorem equals_comm (w : World) : (l r : Value) → l.equals w r = r.equals w l
  | null, r => by cases r <;> rfl
  | text _, r => by
    -- A text is compared with what shows as one, whichever side it stands on.
    cases r with
    | null => rfl
    | _ => exact BEq.comm
  | list as, r => by
    cases r with
    | null => rfl
    | text => exact BEq.comm
    | list bs => exact equalsAll_comm w as bs
    | _ => rfl
  | bool _, r => by
    cases r with
    | null => rfl
    | text | bool => exact BEq.comm
    | _ => rfl
  | pattern _, r => by
    cases r with
    | null => rfl
    | text | pattern => exact BEq.comm
    | _ => rfl
  | object _, r => by
    cases r with
    | null => rfl
    | text | object => exact BEq.comm
    | _ => rfl
  | function _, r => by
    cases r with
    | null => rfl
    | text | function => exact BEq.comm
    | _ => rfl
  | int .., r | float .., r | enum .., r => by
    cases r with
    | null => rfl
    | text => exact BEq.comm
    | int | float | enum => exact numericOrder?_eq_comm _ _
    | _ => rfl

theorem equalsAll_comm (w : World) : (as bs : List Value) → equalsAll w as bs = equalsAll w bs as
  | [], [] | [], _ :: _ | _ :: _, [] => rfl
  | a :: as, b :: bs => by rw [equalsAll, equalsAll, equals_comm w a b, equalsAll_comm w as bs]

end

/-- Integers and enum values, whatever their kinds, have the order of the integers. -/
theorem order?_of_toInt? {a b : Int} (hl : l.toInt? = some a) (hr : r.toInt? = some b) :
    l.order? r = some (compare a b) := by
  have hnumeric : l.numericOrder? r = some (compare a b) := by simp only [numericOrder?, hl, hr]
  unfold order?
  split
  · cases hl
  · cases hl
  · exact hnumeric

end Value

/-- Where an operator that compares is defined on two values, it says how they are ordered. -/
theorem BinaryOp.apply_of_order? {w : World} {l r : Value} {o : Ordering} (h : l.order? r = some o) {op : BinaryOp}
    (hop : op.isRelational) : op.apply w l r = .ok (.bool (op.satisfies o)) := by
  have hrelational : op.relational w l r = .ok (.bool (op.satisfies o)) := by simp only [relational, h]
  cases op with
  | lt | le | gt | ge => exact hrelational
  | _ => cases hop

/-- Equality and order agree. Where two values have an order they are equal if it says so, exactly one of less, equal
and more is true of them, and the other two comparisons join those. Integers of all kinds, enum values among them,
have the order of the integers, which is total and transitive. Equality is symmetric on all values. -/
theorem equality_agrees_with_order (w : World) :
    (∀ (l r : Value) (o : Ordering), l.order? r = some o → (l.equals w r = true ↔ o = .eq) ∧
      ∃ less same more : Bool, BinaryOp.lt.apply w l r = .ok (.bool less) ∧ BinaryOp.eq.apply w l r = .ok (.bool same) ∧
        BinaryOp.gt.apply w l r = .ok (.bool more) ∧ [less, same, more].count true = 1 ∧
        BinaryOp.le.apply w l r = .ok (.bool (less || same)) ∧ BinaryOp.ge.apply w l r = .ok (.bool (more || same))) ∧
    (∀ (l r : Value) (a b : Int), l.toInt? = some a → r.toInt? = some b →
      l.order? r = some (compare a b) ∧ (l.order? r ≠ some .gt ∨ r.order? l ≠ some .gt) ∧
      ∀ (m : Value) (c : Int), m.toInt? = some c →
        l.order? m ≠ some .gt → m.order? r ≠ some .gt → l.order? r ≠ some .gt) ∧
    ∀ l r : Value, l.equals w r = r.equals w l := by
  refine ⟨fun l r o h => ?_, fun l r a b hl hr => ?_, Value.equals_comm w⟩
  · have hequals := Value.equals_of_order? (w := w) h
    have happly {op : BinaryOp} (hop : op.isRelational) := BinaryOp.apply_of_order? (w := w) h hop
    refine ⟨by rw [hequals, beq_iff_eq], o == .lt, o == .eq, o == .gt, happly rfl, ?_, happly rfl, ?_, ?_, ?_⟩
    · rw [← hequals]
      rfl
    · cases o <;> rfl
    · rw [happly rfl]
      cases o <;> rfl
    · rw [happly rfl]
      cases o <;> rfl
  · rw [Value.order?_of_toInt? hl hr, Value.order?_of_toInt? hr hl]
    refine ⟨rfl, ?_, fun m c hm => ?_⟩
    · simp only [ne_eq, Option.some.injEq, Int.compare_eq_gt]
      omega
    · rw [Value.order?_of_toInt? hl hm, Value.order?_of_toInt? hm hr]
      simp only [ne_eq, Option.some.injEq, Int.compare_eq_gt]
      omega

/-- The largest unsigned integer of 64 bits comes after every signed one. -/
theorem equality_agrees_with_order_unsigned :
    (Value.int 18446744073709551615 .u64).order? (.int (-1) .i64) = some .gt ∧
      (Value.int 18446744073709551615 .u64).equals .empty (.int (-1) .i64) = false := by
  have h := ((equality_agrees_with_order .empty).2.1 (.int 18446744073709551615 .u64) (.int (-1) .i64) _ _ rfl rfl).1
  have he := ((equality_agrees_with_order .empty).1 _ _ _ h).1
  exact ⟨h, Bool.eq_false_iff.2 (by simp [he])⟩

end Stencil
