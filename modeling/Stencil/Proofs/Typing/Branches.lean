import Stencil.Proofs.Typing.Soundness
/-!
The kind in which two branches meet. Both branches can be passed there, with one exception: of two integer
kinds the wider one is taken, and an unsigned kind lacks the negative integers of a narrower signed one. A
conditional compiles unless its branches are of two such kinds, and keeps the integer of the branch it takes.
-/
set_option autoImplicit false

namespace Stencil

namespace IntKind

variable {a b : IntKind} {n : Int}

/-- The second kind is wider, and yet lacks the negative integers of the first. -/
def Outgrown (a b : IntKind) : Prop := a.isSigned = true ∧ b.isSigned = false ∧ a.bits < b.bits

instance (a b : IntKind) : Decidable (a.Outgrown b) := inferInstanceAs (Decidable (_ ∧ _ ∧ _))

theorem promote_comm (a b : IntKind) : a.promote b = b.promote a := by
  cases a <;> cases b <;> rfl

theorem promote_self (a : IntKind) : a.promote a = a := if_pos rfl

/-- The kind in which two kinds meet holds the integers of both, unless one has outgrown the other. -/
theorem within_promote_iff : a.within (a.promote b) = true ↔ ¬ a.Outgrown b := by
  cases a <;> cases b <;> decide

theorem promote_of_outgrown (h : a.Outgrown b) : a.promote b = b := by
  obtain ⟨hsigned, hunsigned, hlt⟩ := h
  have hne : a ≠ b := by
    rintro rfl
    exact absurd hlt (Nat.lt_irrefl _)
  rw [promote, if_neg hne, if_neg (by omega), if_pos hlt]

end IntKind

namespace Kind

variable {a b : Kind}

theorem same_int {i j : IntKind} : (int i == int j) = true ↔ i = j := by
  simp [beq_eq_same, same]

def Clash (a b : Kind) : Prop := ∃ i j, a = int i ∧ b = int j ∧ (i.Outgrown j ∨ j.Outgrown i)

theorem implicitCost_of_same (h : a == b) : (a.implicitCost b).isSome = true := by
  unfold implicitCost
  rw [if_pos h]
  rfl

theorem implicitCost_null (h : b.isNullable = true) : (null.implicitCost b).isSome = true := by
  cases b with
  | bool | int | float | enum => cases h
  | _ => rfl

theorem implicitCost_int {i j : IntKind} : ((int i).implicitCost (int j)).isSome = i.within j := by
  unfold implicitCost
  split
  · next h =>
    obtain rfl := same_int.1 h
    simp [IntKind.within]
  · dsimp only
    split
    · next h => exact h.symm
    · next h => simpa using h

theorem promote_implicit (ha : a.isNumeric = true) (hb : b.isNumeric = true) :
    ∃ k, a.promote b = some k ∧
      ((a.implicitCost k).isSome = true ∧ (b.implicitCost k).isSome = true ∨ a.Clash b) := by
  cases a with
  | int i =>
    cases b with
    | int j =>
      refine ⟨int (i.promote j), rfl, ?_⟩
      by_cases hclash : i.Outgrown j ∨ j.Outgrown i
      · exact .inr ⟨i, j, rfl, rfl, hclash⟩
      · obtain ⟨hi, hj⟩ := not_or.1 hclash
        rw [implicitCost_int, implicitCost_int]
        exact .inl ⟨IntKind.within_promote_iff.2 hi, i.promote_comm j ▸ IntKind.within_promote_iff.2 hj⟩
    | float j => exact ⟨float j, rfl, .inl ⟨rfl, implicitCost_of_same (same_refl _)⟩⟩
    | _ => cases hb
  | float i =>
    cases b with
    | int j => exact ⟨float i, rfl, .inl ⟨implicitCost_of_same (same_refl _), rfl⟩⟩
    | float j => cases i <;> cases j <;> exact ⟨_, rfl, .inl ⟨rfl, rfl⟩⟩
    | _ => cases hb
  | _ => cases ha

/-- Both branches can be passed where they meet, unless they clash. -/
theorem ofBranches_implicit (a b : Kind) : a.ofBranches b = any ∨
    ((a.implicitCost (a.ofBranches b)).isSome = true ∧ (b.implicitCost (a.ofBranches b)).isSome = true) ∨
      a.Clash b := by
  unfold ofBranches
  split
  · next h => exact .inr (.inl ⟨implicitCost_of_same (same_refl a), implicitCost_of_same (same_comm a b ▸ h)⟩)
  · split
    · split
      · next h => exact .inr (.inl ⟨implicitCost_null h, implicitCost_of_same (same_refl _)⟩)
      · exact .inl rfl
    · split
      · next h => exact .inr (.inl ⟨implicitCost_of_same (same_refl _), implicitCost_null h⟩)
      · exact .inl rfl
    · split
      · next h =>
        obtain ⟨ha, hb⟩ := Bool.and_eq_true_iff.1 h
        obtain ⟨k, hk, himplicit⟩ := promote_implicit ha hb
        rw [hk]
        exact .inr himplicit
      · exact .inl rfl

theorem ofBranches_int (i j : IntKind) : (int i).ofBranches (int j) = int (i.promote j) := by
  unfold ofBranches
  split
  · next h =>
    obtain rfl := same_int.1 h
    rw [IntKind.promote_self]
  · rfl

theorem eq_int_of_ofBranches {k : IntKind} (h : a.ofBranches b = int k) :
    ∃ i j, a = int i ∧ b = int j ∧ k = i.promote j := by
  unfold ofBranches at h
  split at h
  · next hsame =>
    subst h
    cases b with
    | int j =>
      obtain rfl := same_int.1 hsame
      exact ⟨k, k, rfl, rfl, k.promote_self.symm⟩
    | _ => cases hsame
  · split at h
    · split at h
      · next hk => subst h; cases hk
      · cases h
    · split at h
      · next hk => subst h; cases hk
      · cases h
    · split at h
      · next hnum =>
        obtain ⟨ha, hb⟩ := Bool.and_eq_true_iff.1 hnum
        cases a with
        | int i =>
          cases b with
          | int j =>
            cases h
            exact ⟨i, j, rfl, rfl, rfl⟩
          | float => cases h
          | _ => cases hb
        | float =>
          cases b with
          | int | float => cases h
          | _ => cases hb
        | _ => cases ha
      · cases h

end Kind

namespace Typed

variable {t u : Typed} {k : Kind} {span : Span}

theorem coerceTo_any (t : Typed) (span : Span) : t.coerceTo .any span = .ok t := by
  have h : t.kind.assignable .any = true := by cases t.kind <;> rfl
  unfold coerceTo
  exact if_pos h

theorem coerceTo_bool (h : Host) (t : Typed) (span : Span) :
    ∃ u, t.coerceTo .bool span = .ok u ∧ ∀ e v e₁, t.code.run h e = (.ok v, e₁) →
      ∃ b, u.code.run h e = (.ok b, e₁) ∧ b.truth = v.truth := by
  unfold coerceTo
  split
  · exact ⟨t, rfl, fun e v e₁ hrun => ⟨v, hrun, rfl⟩⟩
  · refine ⟨_, rfl, fun e v e₁ hrun => ⟨.bool v.truth, ?_, rfl⟩⟩
    rw [Code.run, Flow.bind_apply, hrun]
    rfl

theorem coerceTo_implicit (h : (t.kind.implicitCost k).isSome = true) (span : Span) :
    ∃ u, t.coerceTo k span = .ok u := by
  unfold coerceTo
  split
  · exact ⟨_, rfl⟩
  · split
    · exact ⟨_, rfl⟩
    · exact ⟨_, rfl⟩
    · rw [if_pos h]
      exact ⟨_, rfl⟩

theorem coerceTo_int {i j : IntKind} (ht : t.kind = .int i) :
    t.coerceTo (.int j) span =
      if i = j then .ok t
      else if i.within j then .ok ⟨.convert t.code (.int j), .int j⟩
      else .error (.of (.wrongKind (.int j) (.int i)) span) := by
  have hassign : (Kind.int i).assignable (.int j) = true ↔ i = j := Kind.same_int
  unfold coerceTo
  simp only [ht, hassign, Kind.implicitCost_int]

theorem run_coerceTo_int {h : Host} {i j m : IntKind} {n : Int} {e e₁ : Env} (ht : t.kind = .int i)
    (hu : t.coerceTo (.int j) span = .ok u) (hn : i.contains n = true)
    (hrun : t.code.run h e = (.ok (.int n m), e₁)) : ∃ m', u.code.run h e = (.ok (.int n m'), e₁) := by
  rw [coerceTo_int ht] at hu
  split at hu
  · cases hu
    exact ⟨m, hrun⟩
  · split at hu
    · next hwithin =>
      cases hu
      have hj : j.contains n = true := IntKind.contains_of_within hwithin hn
      obtain ⟨m', hm'⟩ : ∃ m', (Value.int n m).convert e₁.world (.int j) = .ok (.int n m') := by
        rw [Value.convert.eq_def]
        simp only [hj, if_true]
        split
        · exact ⟨m, rfl⟩
        · exact ⟨j, rfl⟩
      refine ⟨m', ?_⟩
      rw [Code.run, Flow.bind_apply, hrun]
      exact Flow.look_of_ok hm'
    · cases hu

end Typed

namespace Setting

variable {s : Setting} {test yes no : Expr} {c b y n : Typed} {span yesSpan noSpan : Span}

theorem elaborate_choice (hc : s.elaborate test = .ok c) (hy : s.elaborate yes = .ok y)
    (hn : s.elaborate no = .ok n) (hb : c.coerceTo .bool test.span = .ok b) (span : Span) :
    s.elaborate (.choice test yes no span) = choice b y n yes.span no.span := by
  rw [elaborate, hc]
  dsimp only [bind, Except.bind]
  rw [hb]
  dsimp only
  rw [hy, hn]

theorem choice_ok {t : Typed} (h : choice b y n yesSpan noSpan = .ok t) :
    ∃ y' n', y.coerceTo (y.kind.ofBranches n.kind) yesSpan = .ok y' ∧
      n.coerceTo (y.kind.ofBranches n.kind) noSpan = .ok n' ∧
      t = ⟨.choice b.code y'.code n'.code, y.kind.ofBranches n.kind⟩ := by
  obtain ⟨y', hy', h⟩ := exists_of_bind_ok h
  obtain ⟨n', hn', h⟩ := exists_of_bind_ok h
  cases h
  exact ⟨y', n', hy', hn', rfl⟩

theorem choice_of_not_clash (h : ¬ y.kind.Clash n.kind) (b : Typed) (yesSpan noSpan : Span) :
    ∃ t, choice b y n yesSpan noSpan = .ok t := by
  obtain ⟨⟨y', hy'⟩, ⟨n', hn'⟩⟩ : (∃ y', y.coerceTo (y.kind.ofBranches n.kind) yesSpan = .ok y') ∧
      ∃ n', n.coerceTo (y.kind.ofBranches n.kind) noSpan = .ok n' := by
    rcases Kind.ofBranches_implicit y.kind n.kind with hany | ⟨hy, hn⟩ | hclash
    · rw [hany]
      exact ⟨⟨y, y.coerceTo_any _⟩, ⟨n, n.coerceTo_any _⟩⟩
    · exact ⟨Typed.coerceTo_implicit hy _, Typed.coerceTo_implicit hn _⟩
    · exact absurd hclash h
  refine ⟨⟨.choice b.code y'.code n'.code, y.kind.ofBranches n.kind⟩, ?_⟩
  unfold choice
  dsimp only [bind, Except.bind]
  rw [hy']
  dsimp only
  rw [hn']
  rfl

theorem coerceTo_outgrown {t : Typed} {i j : IntKind} (ht : t.kind = .int i) (h : i.Outgrown j) (span : Span) :
    t.coerceTo (.int j) span = .error (.of (.wrongKind (.int j) (.int i)) span) := by
  have hne : i ≠ j := by
    rintro rfl
    exact absurd h.2.2 (Nat.lt_irrefl _)
  have hwithin : ¬ i.within j = true := fun hw =>
    IntKind.within_promote_iff.1 ((IntKind.promote_of_outgrown h).symm ▸ hw) h
  rw [Typed.coerceTo_int ht, if_neg hne, if_neg hwithin]

/-- The first branch is refused where the kind of the second has outgrown its own. -/
theorem choice_outgrown_left {i j : IntKind} (hy : y.kind = .int i) (hn : n.kind = .int j) (h : i.Outgrown j)
    (b : Typed) (yesSpan noSpan : Span) :
    choice b y n yesSpan noSpan = .error (.of (.wrongKind (.int j) (.int i)) yesSpan) := by
  unfold choice
  dsimp only [bind, Except.bind]
  rw [hy, hn, Kind.ofBranches_int, IntKind.promote_of_outgrown h, coerceTo_outgrown hy h]

/-- The second branch is refused where the kind of the first has outgrown its own. -/
theorem choice_outgrown_right {i j : IntKind} (hy : y.kind = .int i) (hn : n.kind = .int j) (h : j.Outgrown i)
    (b : Typed) (yesSpan noSpan : Span) :
    choice b y n yesSpan noSpan = .error (.of (.wrongKind (.int i) (.int j)) noSpan) := by
  have hfirst : y.coerceTo (.int i) yesSpan = .ok y := by rw [Typed.coerceTo_int hy, if_pos rfl]
  unfold choice
  dsimp only [bind, Except.bind]
  rw [hy, hn, Kind.ofBranches_int, IntKind.promote_comm, IntKind.promote_of_outgrown h, hfirst]
  dsimp only
  rw [coerceTo_outgrown hn h]

theorem run_choice {h : Host} {e e₁ e₂ : Env} {v w : Value} {y n : Code} (hb : b.code.run h e = (.ok v, e₁))
    (hrun : (if v.truth then y else n).run h e₁ = (.ok w, e₂)) :
    (Code.choice b.code y n).run h e = (.ok w, e₂) := by
  rw [Code.run, Flow.bind_apply, hb]
  dsimp only
  split
  · next ht => rwa [if_pos ht] at hrun
  · next ht => rwa [if_neg ht] at hrun

/-- A conditional whose parts compile does so too, unless its branches are integers and the kind of one has
outgrown the other's: that branch is then refused. Otherwise both branches can be passed where they meet, if that
is a kind at all. Where it is an integer kind, the conditional gives the integer of the branch it takes, provided
that is one of the branch's kind. -/
theorem choice_compiles_unless_outgrown (hc : s.elaborate test = .ok c) (hy : s.elaborate yes = .ok y)
    (hn : s.elaborate no = .ok n) (span : Span) :
    ((∃ t, s.elaborate (.choice test yes no span) = .ok t) ↔ ¬ y.kind.Clash n.kind) ∧
    (∀ i j, y.kind = .int i → n.kind = .int j →
      (i.Outgrown j → s.elaborate (.choice test yes no span) = .error (.of (.wrongKind (.int j) (.int i)) yes.span)) ∧
      (j.Outgrown i → s.elaborate (.choice test yes no span) = .error (.of (.wrongKind (.int i) (.int j)) no.span))) ∧
    ∀ t, s.elaborate (.choice test yes no span) = .ok t →
      (t.kind = .any ∨ (y.kind.implicitCost t.kind).isSome = true ∧ (n.kind.implicitCost t.kind).isSome = true) ∧
      ∀ k, t.kind = .int k → ∀ e v e₁, c.code.run s.host e = (.ok v, e₁) →
        ∀ i m e₂, (if v.truth then y else n).code.run s.host e₁ = (.ok (.int i m), e₂) →
          (∀ r, (if v.truth then y else n).kind = .int r → r.contains i = true) →
          ∃ m', t.code.run s.host e = (.ok (.int i m'), e₂) := by
  obtain ⟨b, hb, htest⟩ := c.coerceTo_bool s.host test.span
  rw [elaborate_choice hc hy hn hb span]
  have hleft := @choice_outgrown_left y n
  have hright := @choice_outgrown_right y n
  have hclash : y.kind.Clash n.kind → ∀ t, choice b y n yes.span no.span ≠ .ok t := by
    rintro ⟨i, j, hyi, hnj, h | h⟩ t ht
    · rw [hleft hyi hnj h] at ht
      cases ht
    · rw [hright hyi hnj h] at ht
      cases ht
  refine ⟨⟨fun ⟨t, ht⟩ h => hclash h t ht, fun h => choice_of_not_clash h b _ _⟩,
    fun i j hyi hnj => ⟨fun h => hleft hyi hnj h b _ _, fun h => hright hyi hnj h b _ _⟩, fun t ht => ?_⟩
  have hnot : ¬ y.kind.Clash n.kind := fun h => hclash h t ht
  obtain ⟨y', n', hy', hn', rfl⟩ := choice_ok ht
  refine ⟨(Kind.ofBranches_implicit y.kind n.kind).imp_right (Or.resolve_right · hnot), ?_⟩
  intro k hk e v e₁ hrun i m e₂ hbranch hrange
  have hmeet : y.kind.ofBranches n.kind = .int k := hk
  obtain ⟨r, q, hyr, hnq, rfl⟩ := Kind.eq_int_of_ofBranches hmeet
  obtain ⟨v', hv', htruth⟩ := htest e v e₁ hrun
  rw [hmeet] at hy' hn'
  cases hv : v.truth with
  | true =>
    simp only [hv, if_true] at hbranch hrange
    obtain ⟨m', hm'⟩ := Typed.run_coerceTo_int hyr hy' (hrange r hyr) hbranch
    exact ⟨m', run_choice hv' (by rwa [htruth, hv])⟩
  | false =>
    simp only [hv, Bool.false_eq_true, if_false] at hbranch hrange
    obtain ⟨m', hm'⟩ := Typed.run_coerceTo_int hnq hn' (hrange q hnq) hbranch
    exact ⟨m', run_choice hv' (by rwa [htruth, hv])⟩

/-- A small signed integer and a wide one meet in the wide kind. -/
theorem choice_compiles_unless_outgrown_widened :
    let s : Setting := ⟨.empty, .empty, .init .empty .empty .any, .empty, [], [], true, true⟩
    let test : Expr := .literal (.text "x") ⟨0, 3⟩
    let yes : Expr := .literal (.int (-7) .i32) ⟨6, 8⟩
    let no : Expr := .literal (.int 1099511627776 .i64) ⟨11, 25⟩
    ∃ c y n t, s.elaborate test = .ok c ∧ s.elaborate yes = .ok y ∧ s.elaborate no = .ok n ∧
      ¬ y.kind.Clash n.kind ∧ s.elaborate (.choice test yes no ⟨0, 25⟩) = .ok t ∧ t.kind = .int .i64 ∧
      ∃ m, t.code.run .empty (.init .null 0 .empty) = (.ok (.int (-7) m), .init .null 0 .empty) := by
  intro s test yes no
  have hclash : ¬ (Kind.int .i32).Clash (.int .i64) := by
    rintro ⟨i, j, hi, hj, h⟩
    cases hi
    cases hj
    exact absurd h (by decide)
  have hc : s.elaborate test = .ok (s.const (.text "x")) := rfl
  have hy : s.elaborate yes = .ok (s.const (.int (-7) .i32)) := rfl
  have hn : s.elaborate no = .ok (s.const (.int 1099511627776 .i64)) := rfl
  obtain ⟨hcompiles, -, hruns⟩ := choice_compiles_unless_outgrown hc hy hn ⟨0, 25⟩
  obtain ⟨t, ht⟩ := hcompiles.2 hclash
  have hkind : (s.elaborate (.choice test yes no ⟨0, 25⟩)).map (·.kind) = .ok (.int .i64) := rfl
  rw [ht] at hkind
  replace hkind := Except.ok.inj hkind
  refine ⟨_, _, _, t, hc, hy, hn, hclash, ht, hkind, ?_⟩
  exact (hruns t ht).2 .i64 hkind _ (.text "x") _ rfl (-7) .i32 _ rfl (by rintro r ⟨⟩; decide)

/-- A small integer literal and an unsigned wide one: each compiles, the conditional does not. -/
theorem choice_outgrown_refused :
    let s : Setting := ⟨.empty, .empty, .init .empty .empty .null, .empty, [], [], true, false⟩
    (∃ t, s.elaborateText "true" 0 = .ok t) ∧ (∃ t, s.elaborateText "1" 0 = .ok t ∧ t.kind = .int .i32) ∧
      (∃ t, s.elaborateText "2ul" 0 = .ok t ∧ t.kind = .int .u64) ∧
      s.elaborateText "true ? 1 : 2ul" 0 = .error (.of (.wrongKind (.int .u64) (.int .i32)) ⟨7, 8⟩) := by
  intro s
  refine ⟨⟨s.const (.bool true), ?_⟩, ⟨s.const (.wrapped 1 .i32), ?_, rfl⟩, ⟨s.const (.int 2 .u64), ?_, rfl⟩, ?_⟩
  all_goals with_unfolding_all rfl

end Setting

end Stencil
