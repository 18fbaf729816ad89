import Mathlib.Data.Int.Bitwise
import Mathlib.Data.Int.ModEq
import Stencil.Proofs.Value.Parts
/-!
Integer operators against exact arithmetic. Whatever the kinds of its operands, an operator gives the integer of the
kind in which they meet that is congruent to the exact result modulo the number of integers of that kind.
-/
set_option autoImplicit false

namespace Stencil

namespace IntKind

variable {k : IntKind} {x y v : Int}

/-- `v` is an integer of the kind and congruent to `x` modulo the number of integers of the kind. -/
structure Residue (k : IntKind) (x v : Int) : Prop where
  inRange : k.contains v = true
  congruent : v ≡ x [ZMOD 2 ^ k.bits]

theorem cast_modulus (k : IntKind) : (k.modulus : Int) = 2 ^ k.bits := by
  cases k <;> rfl

theorem wrap_modEq (k : IntKind) (x : Int) : k.wrap x ≡ x [ZMOD 2 ^ k.bits] := by
  rw [← cast_modulus, wrap_eq]
  cases k.isSigned with
  | true => exact Int.bmod_emod
  | false => exact Int.mod_modEq x _

theorem residue_wrap (k : IntKind) (x : Int) : k.Residue x (k.wrap x) :=
  ⟨contains_wrap k x, wrap_modEq k x⟩

theorem abs_sub_lt (hx : k.contains x = true) (hy : k.contains y = true) : |x - y| < 2 ^ k.bits := by
  have heven : k.modulus % 2 = 0 := by cases k <;> decide
  rw [← cast_modulus, abs_lt]
  unfold contains minValue maxValue at hx hy
  cases hsigned : k.isSigned with
  | true | false =>
    simp only [hsigned, if_true, Bool.false_eq_true, if_false, Bool.and_eq_true, decide_eq_true_eq] at hx hy
    omega

theorem Residue.unique (hx : k.Residue v x) (hy : k.Residue v y) : x = y := by
  have hdvd : (2 ^ k.bits : Int) ∣ x - y := (hy.congruent.trans hx.congruent.symm).dvd
  exact Int.sub_eq_zero.1 (Int.eq_zero_of_abs_lt_dvd hdvd (abs_sub_lt hx.inRange hy.inRange))

theorem residue_iff : k.Residue x v ↔ v = k.wrap x :=
  ⟨fun h => h.unique (residue_wrap k x), fun h => h ▸ residue_wrap k x⟩

theorem wrap_eq_self_iff : k.wrap x = x ↔ k.contains x = true :=
  ⟨fun h => h ▸ contains_wrap k x, fun h => (residue_iff.1 ⟨h, .refl x⟩).symm⟩

theorem Residue.of_modEq (h : k.Residue x v) (hxy : x ≡ y [ZMOD 2 ^ k.bits]) : k.Residue y v :=
  ⟨h.inRange, h.congruent.trans hxy⟩

theorem contains_negated (hk : k.isSigned = false) (hx : k.contains x = true) :
    k.negated.contains (-x) = true := by
  cases k with
  | u8 | u16 | u32 | u64 =>
    simp [contains, minValue, maxValue, modulus, bits, isSigned, negated, widened] at hx ⊢
    omega
  | _ => cases hk

theorem negated_signed (hk : k.isSigned = true) : k.negated = k := if_pos hk

end IntKind

/-- `q` is the quotient of `a` by `b` truncated toward zero and `r` the remainder, which has the sign of `a`. -/
structure TruncatedDivision (a b q r : Int) : Prop where
  total : a = b * q + r
  smaller : |r| < |b|
  sign : 0 ≤ a ∧ 0 ≤ r ∨ a ≤ 0 ∧ r ≤ 0

theorem truncatedDivision_tdiv (a : Int) {b : Int} (hb : b ≠ 0) :
    TruncatedDivision a b (a.tdiv b) (a.tmod b) := by
  refine ⟨?_, ?_, ?_⟩
  · rw [Int.add_comm, Int.tmod_add_mul_tdiv]
  · rw [Int.abs_eq_natAbs, Int.abs_eq_natAbs, Int.natAbs_tmod]
    exact_mod_cast Nat.mod_lt _ (Int.natAbs_pos.2 hb)
  · obtain ha | ha := Int.le_total 0 a
    · exact .inl ⟨ha, Int.tmod_nonneg b ha⟩
    · have h := Int.tmod_nonneg b (Int.neg_nonneg_of_nonpos ha)
      rw [Int.neg_tmod] at h
      exact .inr ⟨ha, Int.nonpos_of_neg_nonneg h⟩

/-! ### Operations on 128 bits -/

theorem IntKind.wrap_toInt (k : IntKind) (v : Int) : k.wrap (BitVec.ofInt 128 v).toInt = k.wrap v := by
  unfold wrap
  rw [BitVec.ofInt_toInt]

theorem Value.wrapped_toInt (v : Int) (k : IntKind) : wrapped (BitVec.ofInt 128 v).toInt k = wrapped v k :=
  congrArg (int · k) (k.wrap_toInt v)

theorem IntKind.toInt_ofInt {k : IntKind} {v : Int} (h : k.contains v = true) : (BitVec.ofInt 128 v).toInt = v := by
  have hwide := contains_i128 h
  rw [BitVec.toInt_ofInt]
  simp only [contains, Bool.and_eq_true, decide_eq_true_eq] at hwide
  exact Int.bmod_eq_of_le hwide.1 (Int.lt_of_le_sub_one hwide.2)

namespace BinaryOp

variable {op : BinaryOp} {a b : Int} {i : Nat}

/-- The operator on integers without a bound, wrapped into a kind. -/
def exactInts (op : BinaryOp) (a b : Int) (k : IntKind) : Except Failure Value :=
  match op with
  | add => .ok (.wrapped (a + b) k)
  | sub => .ok (.wrapped (a - b) k)
  | mul => .ok (.wrapped (a * b) k)
  | div => if b = 0 then .error .divisionByZero else .ok (.wrapped (a.tdiv b) k)
  | _ => if b = 0 then .error .divisionByZero else .ok (.wrapped (a.tmod b) k)

theorem sdiv_ofInt {j k : IntKind} (ha : j.contains a = true) (hb : k.contains b = true) :
    (BitVec.ofInt 128 a).sdiv (BitVec.ofInt 128 b) = BitVec.ofInt 128 (a.tdiv b) := by
  refine BitVec.eq_of_toInt_eq ?_
  rw [BitVec.toInt_sdiv, IntKind.toInt_ofInt ha, IntKind.toInt_ofInt hb, BitVec.toInt_ofInt]

theorem srem_ofInt {j k : IntKind} (ha : j.contains a = true) (hb : k.contains b = true) :
    (BitVec.ofInt 128 a).srem (BitVec.ofInt 128 b) = BitVec.ofInt 128 (a.tmod b) := by
  have hint := BitVec.toInt_srem (BitVec.ofInt 128 a) (BitVec.ofInt 128 b)
  rw [IntKind.toInt_ofInt ha, IntKind.toInt_ofInt hb] at hint
  rw [← hint, BitVec.ofInt_toInt]

theorem sub_ofInt (a b : Int) : BitVec.ofInt 128 a - BitVec.ofInt 128 b = BitVec.ofInt 128 (a - b) := by
  rw [Int.sub_eq_add_neg, BitVec.ofInt_add, BitVec.ofInt_neg, BitVec.sub_eq_add_neg]

theorem ofInt_eq_zero_iff {k : IntKind} (hb : k.contains b = true) : BitVec.ofInt 128 b = 0 ↔ b = 0 := by
  rw [← BitVec.toInt_inj, IntKind.toInt_ofInt hb]
  rfl

/-- Computing on 128 bits before the result is cut down gives what exact integers give. -/
theorem onInts_eq {j k : IntKind} (op : BinaryOp) (ha : j.contains a = true) (hb : k.contains b = true)
    (kind : IntKind) : op.onInts a b kind = op.exactInts a b kind := by
  cases op <;> simp only [onInts, exactInts, ofInt_eq_zero_iff hb, sub_ofInt, ← BitVec.ofInt_add, ← BitVec.ofInt_mul,
    sdiv_ofInt ha hb, srem_ofInt ha hb, Value.wrapped_toInt]

theorem getLsbD_ofInt (a : Int) (h : i < 128) : (BitVec.ofInt 128 a).getLsbD i = a.testBit i := by
  cases a with
  | ofNat n => exact (BitVec.getLsbD_ofNat 128 n i).trans (by rw [decide_eq_true h]; rfl)
  | negSucc n =>
    rw [BitVec.ofInt_negSucc_eq_not_ofNat, BitVec.getLsbD_not, BitVec.getLsbD_ofNat, decide_eq_true h]
    rfl

/-- The operator on every bit of two integers in two's complement, however long. -/
def exactBits (op : BinaryOp) (a b : Int) : Int :=
  match op with
  | bitAnd => a.land b
  | bitXor => a.xor b
  | _ => a.lor b

theorem testBit_exactBits (op : BinaryOp) (a b : Int) (i : Nat) :
    (op.exactBits a b).testBit i = op.onBools (a.testBit i) (b.testBit i) := by
  cases op with
  | bitAnd => exact Int.testBit_land a b i
  | bitXor => exact (Int.testBit_lxor a b i).trans (by simp [onBools])
  | _ => exact Int.testBit_lor a b i

theorem onBits_eq (op : BinaryOp) (a b : Int) : op.onBits a b = (op.exactBits a b).bmod (2 ^ 128) := by
  rw [← BitVec.toInt_ofInt]
  cases op with
  | bitAnd | bitXor | _ =>
    refine congrArg BitVec.toInt (BitVec.eq_of_getLsbD_eq fun i hi => ?_)
    simp only [getLsbD_ofInt _ hi, testBit_exactBits, BitVec.getLsbD_and, BitVec.getLsbD_xor, BitVec.getLsbD_or]
    simp [onBools]

theorem onBits_modEq (op : BinaryOp) (a b : Int) (k : IntKind) :
    op.onBits a b ≡ op.exactBits a b [ZMOD 2 ^ k.bits] := by
  have hbits : k.bits ≤ 128 := by cases k <;> decide
  rw [onBits_eq]
  exact Int.ModEq.of_dvd (pow_dvd_pow 2 hbits) (Int.bmod_emod (m := 2 ^ 128))

end BinaryOp

namespace Value

variable {w : World} {l r v : Value} {a b n : Int} {j k : IntKind}

/-- An integer or enum value, its integer, and its kind, whose range holds the integer. -/
inductive Whole : Value → Int → IntKind → Prop
  | int {n : Int} {k : IntKind} : k.contains n = true → Whole (.int n k) n k
  | enum {t : EnumType} {n : Int} : t.underlying.contains n = true → Whole (.enum t n) n t.underlying

theorem Whole.inRange (h : v.Whole n k) : k.contains n = true := by
  cases h with
  | int h | enum h => exact h

def Congruent (x : Int) (k : IntKind) (out : Except Failure Value) : Prop :=
  ∃ v, k.Residue x v ∧ out = .ok (.int v k)

theorem congruent_wrapped (x : Int) (k : IntKind) : Congruent x k (.ok (.wrapped x k)) :=
  ⟨_, k.residue_wrap x, rfl⟩

theorem Whole.apply_exactInts {op : BinaryOp} (hl : l.Whole a j) (hr : r.Whole b k) (hop : op.isArithmetic)
    (w : World) : op.apply w l r = op.exactInts a b (j.promote k) := by
  have hnumber {v : Value} {n : Int} {k : IntKind} (h : v.Whole n k) : v.kind w ≠ .text := by cases h <;> nofun
  rw [BinaryOp.apply_arithmetic hop fun h => h.2.elim (hnumber hl) (hnumber hr),
    ← op.onInts_eq hl.inRange hr.inRange]
  cases hl <;> cases hr <;> rfl

def SameEnum (l r : Value) : Prop :=
  ∃ s m t n, l = .enum s m ∧ r = .enum t n ∧ s.name.full = t.name.full

theorem Whole.apply_bitwise {op : BinaryOp} (hl : l.Whole a j) (hr : r.Whole b k) (hop : op.isBitwise)
    (h : ¬l.SameEnum r) (w : World) : op.apply w l r = .ok (.wrapped (op.onBits a b) (j.promote k)) := by
  rw [BinaryOp.apply_bitwise hop]
  cases hl with
  | int => cases hr <;> rfl
  | @enum s => cases hr with
    | int => rfl
    | @enum t => exact if_neg fun hname => h ⟨s, a, t, b, rfl, rfl, beq_iff_eq.1 hname⟩

theorem apply_bitwise_enums {op : BinaryOp} {s t : EnumType} (hop : op.isBitwise) (h : s.name.full = t.name.full)
    (w : World) : op.apply w (.enum s a) (.enum t b) = .ok (.enum s (s.underlying.wrap (op.onBits a b))) := by
  rw [BinaryOp.apply_bitwise hop]
  exact if_pos (beq_iff_eq.2 h)

theorem congruent_onBits (op : BinaryOp) (a b : Int) (k : IntKind) :
    k.Residue (op.exactBits a b) (k.wrap (op.onBits a b)) :=
  (k.residue_wrap _).of_modEq (op.onBits_modEq a b k)

theorem Whole.apply_neg (h : v.Whole n k) (w : World) : UnaryOp.neg.apply w v = .ok (.wrapped (-n) k.negated) := by
  rw [← wrapped_toInt, BitVec.ofInt_neg]
  cases h <;> rfl

theorem complement_ofInt (n : Int) : ~~~BitVec.ofInt 128 n = BitVec.ofInt 128 (-n - 1) := by
  rw [BitVec.not_eq_neg_add, Int.sub_eq_add_neg, BitVec.ofInt_add, BitVec.ofInt_neg, BitVec.sub_eq_add_neg]
  rfl

theorem Whole.apply_bitNot (h : v.Whole n k) (w : World) :
    ∃ u, UnaryOp.bitNot.apply w v = .ok u ∧ u.Whole (k.wrap (-n - 1)) k ∧ u.kind w = v.kind w := by
  rw [← k.wrap_toInt, ← complement_ofInt]
  cases h with
  | int => exact ⟨_, rfl, .int (k.contains_wrap _), rfl⟩
  | enum => exact ⟨_, rfl, .enum (IntKind.contains_wrap _ _), rfl⟩

theorem testBit_complement (n : Int) (i : Nat) : (-n - 1).testBit i = !n.testBit i := by
  have hlnot : -n - 1 = n.lnot := by
    cases n with
    | ofNat n => rw [Int.lnot, Int.negSucc_eq, Int.ofNat_eq_natCast]; omega
    | negSucc n => rw [Int.lnot, Int.negSucc_eq]; omega
  rw [hlnot, Int.testBit_lnot]

end Value

open Value in
/-- Operators on integers and enum values, of whatever kinds, against exact arithmetic. The result is the integer of
the kind in which the operands meet that is congruent to the exact sum, difference, product, quotient truncated
toward zero, remainder with the sign of the dividend, or combination of bits in two's complement. A quotient and a
remainder fail for a divisor of zero alone. The negation of an unsigned integer is exact; another negation and a
complement wrap into the kind of the operand. Wrapping gives the only integer of the kind that is congruent, and
changes nothing just where the integer is of the kind already. -/
theorem integer_operators_exact (w : World) :
    (∀ (k : IntKind) (x v : Int), k.Residue x v ↔ v = k.wrap x) ∧
    (∀ (k : IntKind) (x : Int), k.wrap x = x ↔ k.contains x = true) ∧
    (∀ (l r : Value) (a b : Int) (j k : IntKind), l.Whole a j → r.Whole b k →
      Congruent (a + b) (j.promote k) (BinaryOp.add.apply w l r) ∧
      Congruent (a - b) (j.promote k) (BinaryOp.sub.apply w l r) ∧
      Congruent (a * b) (j.promote k) (BinaryOp.mul.apply w l r) ∧
      (b = 0 → BinaryOp.div.apply w l r = .error .divisionByZero ∧
        BinaryOp.rem.apply w l r = .error .divisionByZero) ∧
      (b ≠ 0 → ∃ q m, TruncatedDivision a b q m ∧ Congruent q (j.promote k) (BinaryOp.div.apply w l r) ∧
        Congruent m (j.promote k) (BinaryOp.rem.apply w l r)) ∧
      ∀ op : BinaryOp, op.isBitwise → ∃ x : Int,
        (∀ i, x.testBit i = op.onBools (a.testBit i) (b.testBit i)) ∧
        (¬l.SameEnum r → Congruent x (j.promote k) (op.apply w l r)) ∧
        ∀ s m t n, l = .enum s m → r = .enum t n → s.name.full = t.name.full →
          ∃ v, s.underlying.Residue x v ∧ op.apply w l r = .ok (.enum s v)) ∧
    (∀ (v : Value) (n : Int) (k : IntKind), v.Whole n k →
      (k.isSigned = false → UnaryOp.neg.apply w v = .ok (.int (-n) k.negated) ∧ k.negated.contains (-n) = true) ∧
      (k.isSigned = true → Congruent (-n) k (UnaryOp.neg.apply w v)) ∧
      ∃ x m u, (∀ i, x.testBit i = !n.testBit i) ∧ k.Residue x m ∧ UnaryOp.bitNot.apply w v = .ok u ∧
        u.Whole m k ∧ u.kind w = v.kind w) := by
  refine ⟨fun _ _ _ => IntKind.residue_iff, fun _ _ => IntKind.wrap_eq_self_iff, ?_, ?_⟩
  · intro l r a b j k hl hr
    refine ⟨?_, ?_, ?_, ?_, ?_, ?_⟩
    · rw [hl.apply_exactInts hr rfl]
      exact congruent_wrapped _ _
    · rw [hl.apply_exactInts hr rfl]
      exact congruent_wrapped _ _
    · rw [hl.apply_exactInts hr rfl]
      exact congruent_wrapped _ _
    · intro hb
      rw [hl.apply_exactInts hr rfl, hl.apply_exactInts hr rfl]
      exact ⟨if_pos hb, if_pos hb⟩
    · intro hb
      have hdiv : BinaryOp.div.exactInts a b (j.promote k) = .ok (.wrapped (a.tdiv b) (j.promote k)) := if_neg hb
      have hrem : BinaryOp.rem.exactInts a b (j.promote k) = .ok (.wrapped (a.tmod b) (j.promote k)) := if_neg hb
      rw [hl.apply_exactInts hr rfl, hl.apply_exactInts hr rfl, hdiv, hrem]
      exact ⟨_, _, truncatedDivision_tdiv a hb, congruent_wrapped _ _, congruent_wrapped _ _⟩
    · intro op hop
      refine ⟨op.exactBits a b, op.testBit_exactBits a b, fun h => ?_, ?_⟩
      · rw [hl.apply_bitwise hr hop h]
        exact ⟨_, congruent_onBits op a b _, rfl⟩
      · rintro s m t n rfl rfl hname
        cases hl
        cases hr
        exact ⟨_, congruent_onBits op a b _, apply_bitwise_enums hop hname w⟩
  · intro v n k hv
    refine ⟨fun hk => ?_, fun hk => ?_, ?_⟩
    · have hin := IntKind.contains_negated hk hv.inRange
      rw [hv.apply_neg, wrapped, IntKind.wrap_eq_self_iff.2 hin]
      exact ⟨rfl, hin⟩
    · rw [hv.apply_neg, IntKind.negated_signed hk]
      exact congruent_wrapped _ _
    · obtain ⟨u, happly, hwhole, hkind⟩ := hv.apply_bitNot w
      exact ⟨-n - 1, _, u, testBit_complement n, k.residue_wrap _, happly, hwhole, hkind⟩

/-- A negative integer of 32 bits meets an unsigned one of 64 bits in the unsigned kind, and the least integer of a
kind divided by minus one is itself. -/
theorem integer_operators_exact_extremes :
    Value.Congruent (-1 + 18446744073709551615) .u64
      (BinaryOp.add.apply .empty (.int (-1) .i32) (.int 18446744073709551615 .u64)) ∧
    ∃ q m, TruncatedDivision (-2147483648) (-1) q m ∧
      Value.Congruent q .i32 (BinaryOp.div.apply .empty (.int (-2147483648) .i32) (.int (-1) .i32)) ∧
      Value.Congruent m .i32 (BinaryOp.rem.apply .empty (.int (-2147483648) .i32) (.int (-1) .i32)) := by
  obtain ⟨-, -, hbinary, -⟩ := integer_operators_exact .empty
  have hmixed := hbinary _ _ _ _ _ _ (.int (n := -1) (k := .i32) (by decide))
    (.int (n := 18446744073709551615) (k := .u64) (by decide))
  have hleast := hbinary _ _ _ _ _ _ (.int (n := -2147483648) (k := .i32) (by decide))
    (.int (n := -1) (k := .i32) (by decide))
  exact ⟨hmixed.1, hleast.2.2.2.2.1 (by decide)⟩

end Stencil
