import Stencil.Numeric.FloatKind
import Stencil.Numeric.IntKind
set_option autoImplicit false

namespace Stencil

/-! ### Integers on 128 bits -/

namespace IntKind

variable {n : Nat}

theorem toNat_bit (hn : n < 128) : (1#128 <<< n).toNat = Nat.pow 2 n := by
  have hlt : Nat.pow 2 n < Nat.pow 2 128 := Nat.pow_lt_pow_right (by decide) hn
  rw [BitVec.toNat_shiftLeft, Nat.shiftLeft_eq]
  exact (Nat.mod_eq_of_lt ((Nat.one_mul _).symm ▸ hlt)).trans (Nat.one_mul _)

theorem toNat_and_mask (x : BitVec 128) (hn : n < 128) :
    (x &&& ((1#128 <<< n) - 1)).toNat = x.toNat % Nat.pow 2 n := by
  have hle : (1 : BitVec 128) ≤ 1#128 <<< n := by
    rw [BitVec.le_def, toNat_bit hn]
    exact Nat.one_le_two_pow
  rw [BitVec.toNat_and, BitVec.toNat_sub_of_le hle, toNat_bit hn]
  exact Nat.and_two_pow_sub_one_eq_mod x.toNat n

theorem toInt_and_mask (v : Int) (hn : n < 128) :
    (BitVec.ofInt 128 v &&& ((1#128 <<< n) - 1)).toInt = v % (Nat.pow 2 n : Nat) := by
  have hlt : (BitVec.ofInt 128 v).toNat % Nat.pow 2 n < Nat.pow 2 n := Nat.mod_lt _ (Nat.two_pow_pos n)
  have hpow : Nat.pow 2 n ≤ 2 ^ 127 := Nat.pow_le_pow_right (by decide) (Nat.le_of_lt_succ hn)
  have hdvd : ((Nat.pow 2 n : Nat) : Int) ∣ (Nat.pow 2 128 : Nat) :=
    Int.natCast_dvd_natCast.2 (Nat.pow_dvd_pow 2 (Nat.le_of_lt hn))
  rw [BitVec.toInt_eq_toNat_of_lt (by rw [toNat_and_mask _ hn]; omega), toNat_and_mask _ hn, BitVec.toNat_ofInt,
    Int.natCast_emod, Int.toNat_of_nonneg (Int.emod_nonneg _ (by decide))]
  exact Int.emod_emod_of_dvd v hdvd

theorem toNat_shifted_bit (x : BitVec 128) (i : Nat) : (x >>> i &&& 1).toNat = x.toNat / Nat.pow 2 i % 2 := by
  rw [BitVec.toNat_and, BitVec.toNat_ushiftRight, Nat.shiftRight_eq_div_pow]
  exact Nat.and_two_pow_sub_one_eq_mod _ 1

theorem signBit_iff {x : BitVec 128} (hn : 0 < n) (hx : 0 ≤ x.toInt) (hlt : x.toInt < (Nat.pow 2 n : Nat)) :
    (x.sshiftRight (n - 1) &&& 1) = 1 ↔ (Nat.pow 2 n : Nat) ≤ 2 * x.toInt := by
  obtain ⟨i, rfl⟩ := Nat.exists_eq_add_one.2 hn
  have hmsb : x.msb = false := by rw [BitVec.msb_eq_toInt, decide_eq_false (Int.not_lt.2 hx)]
  have hdouble : Nat.pow 2 (i + 1) = Nat.pow 2 i * 2 := rfl
  have hpos : 0 < Nat.pow 2 i := Nat.two_pow_pos i
  rw [BitVec.toInt_eq_toNat_of_msb hmsb] at hlt ⊢
  rw [← BitVec.toNat_inj, BitVec.sshiftRight_eq_of_msb_false hmsb, Nat.add_sub_cancel, toNat_shifted_bit]
  -- below the next power of two, the quotient by this one is zero or one
  have hsmall : x.toNat / Nat.pow 2 i < 2 := Nat.div_lt_of_lt_mul (by omega)
  have hle : ((Nat.pow 2 (i + 1) : Nat) : Int) ≤ 2 * x.toNat ↔ 1 ≤ x.toNat / Nat.pow 2 i := by
    rw [Nat.le_div_iff_mul_le hpos]
    omega
  rw [hle, Nat.mod_eq_of_lt hsmall]
  exact ⟨Nat.le_of_eq ∘ Eq.symm, fun h => Nat.le_antisymm (Nat.le_of_lt_succ hsmall) h⟩

theorem toInt_sub_bit {x : BitVec 128} (hn : n < 127) (hx : 0 ≤ x.toInt) (hlt : x.toInt < (Nat.pow 2 n : Nat)) :
    (x - 1#128 <<< n).toInt = x.toInt - (Nat.pow 2 n : Nat) := by
  have hpow : Nat.pow 2 n < 2 ^ 127 := Nat.pow_lt_pow_right (by decide) hn
  have hbit : (1#128 <<< n).toInt = (Nat.pow 2 n : Nat) := by
    rw [BitVec.toInt_eq_toNat_of_lt (by rw [toNat_bit (by omega)]; omega), toNat_bit (by omega)]
  rw [BitVec.toInt_sub, hbit]
  exact Int.bmod_eq_of_le (by omega) (by omega)

/-- Cutting bits off is taking the integer of the kind that is congruent modulo the number of its values. -/
theorem wrap_eq (k : IntKind) (v : Int) : k.wrap v = if k.isSigned then v.bmod k.modulus else v % k.modulus := by
  unfold wrap
  dsimp only
  split
  · next hwide =>
    obtain rfl : k = i128 := by cases k <;> first | rfl | cases hwide
    exact BitVec.toInt_ofInt v
  · next hnarrow =>
    have hbits : 0 < k.bits ∧ k.bits < 127 := by cases k <;> first | decide | exact absurd rfl hnarrow
    have hpos : (0 : Int) < k.modulus := Int.natCast_pos.2 (Nat.two_pow_pos k.bits)
    have hnonneg : 0 ≤ v % k.modulus := Int.emod_nonneg v (Int.ne_of_gt hpos)
    have hlt : v % k.modulus < k.modulus := Int.emod_lt_of_pos v hpos
    have hlow : (BitVec.ofInt 128 v &&& ((1#128 <<< k.bits) - 1)).toInt = v % k.modulus :=
      toInt_and_mask v (by omega)
    have hsub := toInt_sub_bit hbits.2 (hlow ▸ hnonneg) (hlow ▸ hlt)
    have hsign := signBit_iff hbits.1 (hlow ▸ hnonneg) (hlow ▸ hlt)
    rw [hlow] at hsub hsign
    simp only [hsub, hlow, Int.bmod_def, Bool.and_eq_true, beq_iff_eq, hsign]
    change (if k.isSigned = true ∧ (k.modulus : Int) ≤ _ then v % k.modulus - k.modulus else _) = _
    cases k.isSigned with
    | true =>
      simp only [true_and, if_true]
      split <;> split <;> first | rfl | omega
    | false => simp

theorem contains_i128 {k : IntKind} {v : Int} (h : k.contains v = true) : i128.contains v = true := by
  have hk : i128.minValue ≤ k.minValue ∧ k.maxValue ≤ i128.maxValue := by cases k <;> decide
  simp only [contains, Bool.and_eq_true, decide_eq_true_eq] at h ⊢
  exact ⟨Int.le_trans hk.1 h.1, Int.le_trans h.2 hk.2⟩

theorem contains_wrap (k : IntKind) (v : Int) : k.contains (k.wrap v) = true := by
  have hpos : 0 < k.modulus := by cases k <;> decide
  have heven : k.modulus % 2 = 0 := by cases k <;> decide
  rw [wrap_eq]
  unfold contains minValue maxValue
  cases k.isSigned with
  | true =>
    have hlow := Int.le_bmod (x := v) hpos
    have hhigh := Int.bmod_lt (x := v) hpos
    simp only [if_true, Bool.and_eq_true, decide_eq_true_eq]
    omega
  | false =>
    have hlow := Int.emod_nonneg v (b := k.modulus) (by omega)
    have hhigh := Int.emod_lt_of_pos v (b := k.modulus) (by omega)
    simp only [Bool.false_eq_true, if_false, Bool.and_eq_true, decide_eq_true_eq]
    omega

end IntKind

/-! ### The order of floats -/

open Float.Model

theorem compare_swap (a b : UnpackedFloat) : b.compare a = (a.compare b).map Ordering.swap := by
  cases a with
  | notANumber => cases b <;> rfl
  | infinity s =>
    cases b with
    | notANumber => cases s <;> rfl
    | infinity t => cases s <;> cases t <;> rfl
    | zero t => cases s <;> rfl
    | finite t _ _ _ => cases s <;> cases t <;> rfl
  | zero s =>
    cases b with
    | notANumber => rfl
    | infinity t => cases t <;> rfl
    | zero t => rfl
    | finite t _ _ _ => cases t <;> rfl
  | finite s m e _ =>
    cases b with
    | notANumber => cases s <;> rfl
    | infinity t => cases s <;> cases t <;> rfl
    | zero t => cases s <;> rfl
    | finite t m' e' _ =>
      have h : (compare e' e).then (compare m' m) = ((compare e e').then (compare m m')).swap := by
        rw [Ordering.swap_then, Int.compare_swap, Nat.compare_swap]
      cases s with
      | positive =>
        cases t with
        | positive => exact congrArg some h
        | negative => rfl
      | negative =>
        cases t with
        | positive => rfl
        | negative => exact congrArg (fun o => some o.swap) h

theorem compare_eq_none {a b : UnpackedFloat} (h : a.compare b = none) : a.isNaN ∨ b.isNaN := by
  cases a with
  | notANumber => exact .inl rfl
  | infinity s =>
    cases b with
    | notANumber => exact .inr rfl
    | _ => cases s <;> cases h
  | zero s =>
    cases b with
    | notANumber => exact .inr rfl
    | infinity t => cases t <;> cases h
    | zero t => cases h
    | finite t _ _ _ => cases t <;> cases h
  | finite s _ _ _ =>
    cases b with
    | notANumber => exact .inr rfl
    | infinity t => cases s <;> cases t <;> cases h
    | zero t => cases s <;> cases h
    | finite t _ _ _ => cases s <;> cases t <;> cases h

theorem lt_iff_compare {a b : Float} : a < b ↔ a.toModel.unpack.compare b.toModel.unpack = some .lt := by
  simp [LT.lt, Float.lt, Float.Model.lt, UnpackedFloat.lt]

theorem beq_iff_compare {a b : Float} : a == b ↔ a.toModel.unpack.compare b.toModel.unpack = some .eq := by
  exact beq_iff_eq (a := a.toModel.unpack.compare b.toModel.unpack)

theorem floatOrder?_eq_compare (a b : Float) :
    floatOrder? a b = a.toModel.unpack.compare b.toModel.unpack := by
  have hswap := compare_swap a.toModel.unpack b.toModel.unpack
  simp only [floatOrder?, lt_iff_compare, beq_iff_compare, hswap]
  cases a.toModel.unpack.compare b.toModel.unpack with
  | none => rfl
  | some o => cases o <;> rfl

theorem isNaN_of_floatOrder?_eq_none {a b : Float} (h : floatOrder? a b = none) : a.isNaN ∨ b.isNaN := by
  rw [floatOrder?_eq_compare] at h
  exact compare_eq_none h

theorem floatOrder?_self {a : Float} : floatOrder? a a = some .eq ↔ a.isNaN = false := by
  rw [floatOrder?_eq_compare]
  change _ ↔ a.toModel.unpack.isNaN = false
  cases a.toModel.unpack with
  | notANumber => exact ⟨nofun, nofun⟩
  | infinity s => cases s <;> exact ⟨fun _ => rfl, fun _ => rfl⟩
  | zero s => exact ⟨fun _ => rfl, fun _ => rfl⟩
  | finite s m e =>
    have h : (compare e e).then (compare m m) = .eq := by
      rw [Ordering.then_eq_eq]
      exact ⟨Int.compare_eq_eq.2 rfl, Nat.compare_eq_eq.2 rfl⟩
    refine ⟨fun _ => rfl, fun _ => ?_⟩
    cases s with
    | positive => exact congrArg some h
    | negative => exact congrArg (fun o => some o.swap) h

end Stencil
