import Stencil.Proofs.Run.Flow
import Stencil.Proofs.Value.Conversion
import Stencil.Typing.Elaborate
/-!
Compiled coalescing against the plain operator. The compiled form converts what the operator gives to the kind
in which the operands meet. What it gives equals the operator's value; it gives nothing where that kind does not
take the value.
-/
set_option autoImplicit false

namespace Stencil

namespace Kind

variable {w : World} {v : Value} {a b k : Kind}

/-- A number of the first kind can be of the second one where it meets another. -/
inductive Promotes : Kind → Kind → Prop
  | int (i j : IntKind) : Promotes (int i) (int j)
  | intFloat (i : IntKind) (f : FloatKind) : Promotes (int i) (float f)
  | enum (t : EnumType) (j : IntKind) : Promotes (enum t) (int j)
  | enumFloat (t : EnumType) (f : FloatKind) : Promotes (enum t) (float f)
  | float (f : FloatKind) : Promotes (float f) (float f)
  | widened : Promotes (float .f32) (float .f64)

theorem promotes_max (i j : FloatKind) : Promotes (float i) (float (i.max j)) ∧ Promotes (float j) (float (i.max j)) := by
  cases i <;> cases j <;> constructor <;> constructor

theorem promotes_of_promote (ha : a ≠ null) (hb : b ≠ null) (h : a.promote b = some k) :
    a.Promotes k ∧ b.Promotes k := by
  cases a with
  | null => exact absurd rfl ha
  | int i =>
    cases b with
    | null => exact absurd rfl hb
    | int | enum | float => cases h; constructor <;> constructor
    | _ => cases h
  | enum s =>
    cases b with
    | null => exact absurd rfl hb
    | int | enum | float => cases h; constructor <;> constructor
    | _ => cases h
  | float i =>
    cases b with
    | null => exact absurd rfl hb
    | int | enum => cases h; constructor <;> constructor
    | float j => cases h; exact promotes_max i j
    | _ => cases h
  | _ =>
    cases b with
    | null => exact absurd rfl hb
    | _ => cases h

theorem convert_int_iff {n : Int} {i j : IntKind} :
    (∃ u, (Value.int n i).convert w (int j) = .ok u) ↔ i = j ∨ j.contains n = true := by
  have hassign : ((Value.int n i).kind w).assignable (int j) = true ↔ i = j := by
    simp [Value.kind, assignable, beq_eq_same, same]
  rw [Value.convert.eq_def]
  simp only [hassign]
  split
  · next h => exact ⟨fun _ => .inl h, fun _ => ⟨_, rfl⟩⟩
  · next h =>
    split
    · next hn => exact ⟨fun _ => .inr hn, fun _ => ⟨_, rfl⟩⟩
    · next hn => simp [h, hn]

theorem convert_enum_iff {t : EnumType} {n : Int} {j : IntKind} :
    (∃ u, (Value.enum t n).convert w (int j) = .ok u) ↔ j.contains n = true := by
  rw [Value.convert.eq_def]
  simp only [Value.kind, assignable, beq_eq_same, same, Bool.false_eq_true, if_false]
  split
  · next hn => exact ⟨fun _ => hn, fun _ => ⟨_, rfl⟩⟩
  · next hn => simp [hn]

theorem exists_int_of_same {i : IntKind} (h : v.kind w == int i) : ∃ n, v = .int n i := by
  cases v with
  | int n j =>
    obtain rfl : j = i := by simpa [Value.kind, beq_eq_same, same] using h
    exact ⟨n, rfl⟩
  | object => rw [Value.kind_eq] at h; cases h
  | _ => cases h

theorem exists_float_of_same {f : FloatKind} (h : v.kind w == float f) : ∃ x, v = .float x f := by
  cases v with
  | float x g =>
    obtain rfl : g = f := by simpa [Value.kind, beq_eq_same, same] using h
    exact ⟨x, rfl⟩
  | object => rw [Value.kind_eq] at h; cases h
  | _ => cases h

theorem exists_enum_of_same {t : EnumType} (h : v.kind w == enum t) : ∃ t' n, v = .enum t' n := by
  cases v with
  | enum t' n => exact ⟨t', n, rfl⟩
  | object => rw [Value.kind_eq] at h; cases h
  | _ => cases h

theorem Promotes.convert_ok_iff (h : a.Promotes k) (hv : v.kind w == a) :
    (∃ u, v.convert w k = .ok u) ↔ k.Takes v := by
  cases h with
  | int i j =>
    obtain ⟨n, rfl⟩ := exists_int_of_same hv
    exact convert_int_iff
  | intFloat i f =>
    obtain ⟨n, rfl⟩ := exists_int_of_same hv
    exact ⟨fun _ => trivial, fun _ => ⟨_, rfl⟩⟩
  | enum t j =>
    obtain ⟨t', n, rfl⟩ := exists_enum_of_same hv
    exact convert_enum_iff
  | enumFloat t f =>
    obtain ⟨t', n, rfl⟩ := exists_enum_of_same hv
    exact ⟨nofun, False.elim⟩
  | float f =>
    obtain ⟨x, rfl⟩ := exists_float_of_same hv
    exact ⟨fun _ => trivial, fun _ => ⟨_, Value.convert_of_assignable (assignable_of_same hv)⟩⟩
  | widened =>
    obtain ⟨x, rfl⟩ := exists_float_of_same hv
    exact ⟨fun _ => trivial, fun _ => ⟨_, rfl⟩⟩

theorem Promotes.kind_of_inhabits (h : a.Promotes k) (hv : v.isNull = false) (hin : Inhabits w a v) : v.kind w == a := by
  cases hin with
  | null => cases hv
  | any => cases h
  | list => cases h
  | kind h => exact h

theorem takes_null (k : Kind) : k.Takes .null := by
  cases k <;> trivial

theorem meet_of_ne_null (ha : a ≠ null) (hb : b ≠ null) :
    a.meet b = if a == b then a else (a.promote b).getD any := by
  cases a with
  | null => exact absurd rfl ha
  | _ =>
    cases b with
    | null => exact absurd rfl hb
    | _ => rfl

theorem meet_null (a : Kind) : a.meet null = a := by
  cases a <;> rfl

end Kind

theorem Inhabits.eq_null {w : World} {v : Value} (h : Inhabits w .null v) : v = .null := by
  cases h with
  | null => rfl
  | kind h =>
    cases v with
    | null => rfl
    | object => rw [Value.kind_eq] at h; cases h
    | _ => cases h

namespace Value

variable {w : World} {v : Value} {l r : Kind}

theorem fitted_of_not_null (hv : v.isNull = false) (k : Kind) : v.fitted w k = v.convert w k := by
  unfold fitted
  cases hk : k.isAny with
  | true =>
    obtain rfl : k = .any := by
      cases k with
      | any => rfl
      | _ => cases hk
    rw [if_pos (by simp), convert_any]
  | false => rw [if_neg (by simp [hv])]

theorem fitted_meet_iff (h : Inhabits w l v ∨ Inhabits w r v) :
    (∃ u, v.fitted w (l.meet r) = .ok u) ↔ (l.meet r).Takes v := by
  cases hv : v.isNull with
  | true =>
    rw [eq_null hv]
    exact ⟨fun _ => Kind.takes_null _, fun _ => ⟨null, rfl⟩⟩
  | false =>
    have hnull : ¬ Inhabits w .null v := fun hn => by
      rw [hn.eq_null] at hv
      cases hv
    rw [fitted_of_not_null hv]
    by_cases hl : l = .null
    · subst hl
      exact convert_ok_iff hv (h.resolve_left hnull)
    by_cases hr : r = .null
    · subst hr
      rw [Kind.meet_null]
      exact convert_ok_iff hv (h.resolve_right hnull)
    rw [Kind.meet_of_ne_null hl hr]
    split
    · next hsame => exact convert_ok_iff hv (h.elim id (·.of_same (Kind.same_comm l r ▸ hsame)))
    · cases hp : l.promote r with
      | none => exact ⟨fun _ => trivial, fun _ => ⟨v, convert_any v⟩⟩
      | some k =>
        obtain ⟨hlk, hrk⟩ := Kind.promotes_of_promote hl hr hp
        rcases h with h | h
        · exact hlk.convert_ok_iff (hlk.kind_of_inhabits hv h)
        · exact hrk.convert_ok_iff (hrk.kind_of_inhabits hv h)

/-- What a value is fitted to equals it, and is the same integer unless it is a float. -/
theorem equals_fitted {k : Kind} {u : Value} (h : v.fitted w k = .ok u) :
    (v.equals w v = true → u.equals w v = true) ∧ (∀ n, u.toInt? = some n → v.toInt? = some n) ∧
      ∀ n, v.toInt? = some n → u.toInt? = some n ∨ ∃ f, k = .float f ∧ u = rounded (Decimal.ofInt n) f := by
  cases hv : v.isNull with
  | true =>
    rw [eq_null hv] at h ⊢
    cases h
    exact ⟨id, fun n hn => hn, fun n hn => .inl hn⟩
  | false =>
    rw [fitted_of_not_null hv] at h
    exact ⟨fun hself => equals_convert hself h, fun n hn => toInt?_of_convert hn h, fun n hn => toInt?_convert hn h⟩

end Value

namespace Setting

variable {s : Setting} {a b : Expr} {l r : Typed}

theorem elaborate_coalesce (ha : s.elaborate a = .ok l) (hb : s.elaborate b = .ok r) (span : Span) :
    s.elaborate (.binary .coalesce a b span) =
      .ok ⟨.coalesce l.code r.code (l.kind.meet r.kind), l.kind.meet r.kind⟩ := by
  rw [elaborate, ha]
  dsimp only [bind, Except.bind]
  rw [hb]
  rfl

theorem run_coalesce {h : Host} {l r : Code} {k : Kind} {e e₁ e₂ : Env} {x y : Value} (hx : l.run h e = (.ok x, e₁))
    (hy : r.run h e₁ = (.ok y, e₂)) :
    (Code.coalesce l r k).run h e =
      Flow.look (fun w => (if x.isNull then y else x).fitted w k) (if x.isNull then e₂ else e₁) := by
  rw [Code.run, Flow.bind_apply, hx]
  dsimp only
  cases x.isNull with
  | true =>
    simp only [if_true]
    rw [Flow.bind_apply, hy]
  | false => rfl

/-- Coalescing always compiles. Where both operands have values, of their kinds, the compiled form has one exactly if
the kind in which they meet takes what the plain operator gives. Its value then equals the operator's, unless that is
not even equal to itself, and is the same integer where it is one; an integer can only become the nearest float. -/
theorem coalesce_agrees_where_taken (ha : s.elaborate a = .ok l) (hb : s.elaborate b = .ok r) (span : Span) :
    ∃ t, s.elaborate (.binary .coalesce a b span) = .ok t ∧ t.kind = l.kind.meet r.kind ∧
      ∀ e x e₁ y e₂, l.code.run s.host e = (.ok x, e₁) → r.code.run s.host e₁ = (.ok y, e₂) →
      ∀ u e', e' = (if x.isNull then e₂ else e₁) → BinaryOp.apply .coalesce e'.world x y = .ok u →
        u = (if x.isNull then y else x) ∧
        (Inhabits e₁.world l.kind x → Inhabits e₂.world r.kind y →
          ((∃ v, t.code.run s.host e = (.ok v, e')) ↔ t.kind.Takes u)) ∧
        ∀ v e'', t.code.run s.host e = (.ok v, e'') → e'' = e' ∧
          (u.equals e'.world u = true → v.equals e'.world u = true) ∧
          (∀ n, v.toInt? = some n → u.toInt? = some n) ∧
          ∀ n, u.toInt? = some n →
            v.toInt? = some n ∨ ∃ f, t.kind = .float f ∧ v = .rounded (Decimal.ofInt n) f := by
  refine ⟨_, elaborate_coalesce ha hb span, rfl, ?_⟩
  rintro e x e₁ y e₂ hx hy u e' he' hu
  have hplain : (if x.isNull then y else x) = u := Except.ok.inj hu
  have hrun : (Code.coalesce l.code r.code (l.kind.meet r.kind)).run s.host e =
      Flow.look (fun w => u.fitted w (l.kind.meet r.kind)) e' := by
    rw [run_coalesce hx hy, hplain, he']
  refine ⟨hplain.symm, fun hinx hiny => ?_, fun v e'' hv => ?_⟩
  · have hin : Inhabits e'.world l.kind u ∨ Inhabits e'.world r.kind u := by
      rw [he', ← hplain]
      cases x.isNull with
      | true => exact .inr hiny
      | false => exact .inl hinx
    rw [← Value.fitted_meet_iff hin, hrun]
    constructor
    · rintro ⟨v, hv⟩
      exact ⟨v, (Flow.look_ok hv).1⟩
    · rintro ⟨v, hv⟩
      exact ⟨v, Flow.look_of_ok hv⟩
  · rw [hrun] at hv
    obtain ⟨hfit, rfl⟩ := Flow.look_ok hv
    exact ⟨rfl, Value.equals_fitted hfit⟩

/-- A negative integer and a wide signed one meet in the wide kind, which takes it. -/
theorem coalesce_agrees_where_taken_widened :
    let s : Setting := ⟨.empty, .empty, .init .empty .empty .any, .empty, [], [], true, true⟩
    let a : Expr := .literal (.int (-1) .i32) ⟨0, 2⟩
    let b : Expr := .literal (.int 2 .i64) ⟨6, 8⟩
    let e : Env := .init .null 0 .empty
    ∃ l r t, s.elaborate a = .ok l ∧ s.elaborate b = .ok r ∧
      s.elaborate (.binary .coalesce a b ⟨0, 8⟩) = .ok t ∧ t.kind = .int .i64 ∧
      l.code.run s.host e = (.ok (.int (-1) .i32), e) ∧ r.code.run s.host e = (.ok (.int 2 .i64), e) ∧
      Inhabits .empty l.kind (.int (-1) .i32) ∧ Inhabits .empty r.kind (.int 2 .i64) ∧
      ∃ v, t.code.run s.host e = (.ok v, e) ∧ v.toInt? = some (-1) := by
  intro s a b e
  have ha : s.elaborate a = .ok (s.const (.int (-1) .i32)) := rfl
  have hb : s.elaborate b = .ok (s.const (.int 2 .i64)) := rfl
  obtain ⟨t, ht, hkind, hagrees⟩ := coalesce_agrees_where_taken ha hb ⟨0, 8⟩
  obtain ⟨-, hiff, hvalue⟩ := hagrees e (.int (-1) .i32) e (.int 2 .i64) e rfl rfl (.int (-1) .i32) e rfl rfl
  have hint : t.kind = .int .i64 := hkind
  have htakes : t.kind.Takes (.int (-1) .i32) := by
    rw [hint]
    exact .inr (by decide)
  obtain ⟨v, hv⟩ := (hiff (.kind rfl) (.kind rfl)).2 htakes
  refine ⟨_, _, t, ha, hb, ht, hint, rfl, rfl, .kind rfl, .kind rfl, v, hv, ?_⟩
  rcases (hvalue v e hv).2.2.2 (-1) rfl with h | ⟨f, hf, -⟩
  · exact h
  · rw [hint] at hf
    cases hf

/-- A negative integer, coalesced with an unsigned one: the plain operator gives it, the compiled form fails. -/
theorem coalesce_refuses_negative :
    let s : Setting := ⟨.empty, .empty, .init .empty .empty .null, .empty, [], [], true, false⟩
    ∃ t, s.elaborateText "-1 ?? 2ul" 0 = .ok t ∧
      t.evaluate .empty .null .empty = (.error (.mismatch "u64" "i32"), .empty) ∧
      (∃ l, s.elaborateText "-1" 0 = .ok l ∧ l.evaluate .empty .null .empty = (.ok (.int (-1) .i32), .empty)) ∧
      (∃ r, s.elaborateText "2ul" 0 = .ok r ∧ r.evaluate .empty .null .empty = (.ok (.int 2 .u64), .empty)) ∧
      BinaryOp.apply .coalesce .empty (.int (-1) .i32) (.int 2 .u64) = .ok (.int (-1) .i32) := by
  intro s
  refine ⟨⟨.coalesce (.unary .neg (.const (.wrapped 1 .i32))) (.const (.wrapped 2 .u64)) (.int .u64), .int .u64⟩, ?_, rfl,
    ⟨⟨.unary .neg (.const (.wrapped 1 .i32)), .int .i32⟩, ?_, rfl⟩, ⟨s.const (.wrapped 2 .u64), ?_, rfl⟩, rfl⟩
  all_goals with_unfolding_all rfl

end Setting

end Stencil
