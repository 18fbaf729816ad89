import Mathlib
import Stencil.Decimal.Reading
import Stencil.Proofs.Numeric.Basic
set_option autoImplicit false

namespace Stencil

namespace FloatKind

/-! ### Bits of a double -/

/-- The bits of a double by its sign, biased exponent and fraction. -/
def bitsOf (sign biased fraction : Nat) : Nat := sign * Nat.pow 2 63 + (biased * Nat.pow 2 52 + fraction)

variable {s b f n : Nat}

theorem sign_bitsOf (hb : b < Nat.pow 2 11) (hf : f < Nat.pow 2 52) : bitsOf s b f / Nat.pow 2 63 = s := by
  simp only [bitsOf, Nat.pow_eq] at *
  omega

theorem biased_bitsOf (hb : b < Nat.pow 2 11) (hf : f < Nat.pow 2 52) :
    bitsOf s b f / Nat.pow 2 52 % Nat.pow 2 11 = b := by
  simp only [bitsOf, Nat.pow_eq] at *
  omega

theorem fraction_bitsOf (hf : f < Nat.pow 2 52) : bitsOf s b f % Nat.pow 2 52 = f := by
  simp only [bitsOf, Nat.pow_eq] at *
  omega

/-! ### Rounding bits -/

theorem nearestQuotient_mul (q d : Nat) : nearestQuotient (q * Nat.pow 2 d) d = q := by
  have hpos : 0 < Nat.pow 2 d := Nat.two_pow_pos d
  unfold nearestQuotient
  rw [Nat.mul_mod_left, Nat.mul_div_cancel q hpos]
  exact if_pos hpos

theorem nearestQuotient_bounds (m d : Nat) :
    m / Nat.pow 2 d ≤ nearestQuotient m d ∧ nearestQuotient m d ≤ m / Nat.pow 2 d + 1 := by
  unfold nearestQuotient
  dsimp only
  split
  · omega
  · split
    · omega
    · omega

theorem rounded_mantissa {m d : Nat} (hm : Nat.pow 2 52 ≤ m) (hlt : m < Nat.pow 2 53) (hd : d ≤ 53) :
    nearestQuotient m d * Nat.pow 2 d = 0 ∨
      Nat.pow 2 52 ≤ nearestQuotient m d * Nat.pow 2 d ∧ nearestQuotient m d * Nat.pow 2 d < Nat.pow 2 53 ∨
      nearestQuotient m d * Nat.pow 2 d = Nat.pow 2 53 := by
  obtain ⟨hlow, hhigh⟩ := nearestQuotient_bounds m d
  by_cases h53 : d = 53
  · subst h53
    have hzero : m / Nat.pow 2 53 = 0 := Nat.div_eq_of_lt hlt
    rw [hzero] at hhigh
    rcases Nat.le_one_iff_eq_zero_or_eq_one.1 hhigh with h | h
    · exact .inl (by rw [h, Nat.zero_mul])
    · exact .inr (.inr (by rw [h, Nat.one_mul]))
  · have hsplit : ∀ k, d ≤ k → Nat.pow 2 k = Nat.pow 2 (k - d) * Nat.pow 2 d := fun k hk => by
      rw [Nat.pow_eq, Nat.pow_eq, Nat.pow_eq, ← Nat.pow_add, Nat.sub_add_cancel hk]
    have hpos : 0 < Nat.pow 2 d := Nat.two_pow_pos d
    have hq : Nat.pow 2 (52 - d) ≤ m / Nat.pow 2 d := by
      rw [Nat.le_div_iff_mul_le hpos, ← hsplit 52 (by omega)]
      exact hm
    have hq' : m / Nat.pow 2 d < Nat.pow 2 (53 - d) := by
      rw [Nat.div_lt_iff_lt_mul hpos, ← hsplit 53 (by omega)]
      exact hlt
    rw [hsplit 52 (by omega), hsplit 53 hd]
    rcases Nat.lt_or_ge (nearestQuotient m d) (Nat.pow 2 (53 - d)) with h | h
    · exact .inr (.inl ⟨Nat.mul_le_mul_right _ (by omega), Nat.mul_lt_mul_of_pos_right h hpos⟩)
    · exact .inr (.inr (congrArg (· * Nat.pow 2 d) (by omega)))

theorem magnitude_eq {p m : Nat} (hb : 1 ≤ b) (hm : p ≤ m) : (b - 1) * p + m = b * p + (m - p) := by
  obtain ⟨c, rfl⟩ := Nat.exists_eq_add_of_le' hb
  rw [Nat.add_sub_cancel, Nat.succ_mul]
  omega

/-- A rounded mantissa and its exponent are the fields of a number with the precision of a single. -/
theorem fields_of_rounded {m : Nat} (hb : 873 ≤ b) (hdvd : Nat.pow 2 (droppedBits b) ∣ m)
    (hm : Nat.pow 2 52 ≤ m ∧ m < Nat.pow 2 53 ∨ m = Nat.pow 2 53)
    (hmag : (b - 1) * Nat.pow 2 52 + m < 1151 * Nat.pow 2 52) :
    ∃ b' f, 873 ≤ b' ∧ b' < 1151 ∧ f < Nat.pow 2 52 ∧ Nat.pow 2 (droppedBits b') ∣ Nat.pow 2 52 + f ∧
      ∀ s, s * Nat.pow 2 63 + ((b - 1) * Nat.pow 2 52 + m) = bitsOf s b' f := by
  rcases hm with ⟨hlo, hhi⟩ | rfl
  · refine ⟨b, m - Nat.pow 2 52, hb, ?_, ?_, ?_, fun s => ?_⟩
    · simp only [Nat.pow_eq] at hlo hmag
      omega
    · simp only [Nat.pow_eq] at hlo hhi ⊢
      omega
    · rwa [Nat.add_sub_cancel' hlo]
    · rw [bitsOf, magnitude_eq (by omega) hlo]
  · -- Rounded up to a power of two, the mantissa carries into the exponent.
    refine ⟨b + 1, 0, by omega, ?_, Nat.two_pow_pos 52, ?_, fun s => ?_⟩
    · simp only [Nat.pow_eq] at hmag
      omega
    · exact Nat.pow_dvd_pow 2 (by simp only [droppedBits]; omega)
    · have hsum : Nat.pow 2 53 - Nat.pow 2 52 = Nat.pow 2 52 := rfl
      rw [bitsOf, magnitude_eq (by omega) (by decide), hsum, Nat.succ_mul, Nat.add_zero]

/-- What rounding gives: bits that stay, a zero, an infinity, or a number with the precision of a single. -/
theorem singleBits_cases (n : Nat) :
    (n / Nat.pow 2 52 % Nat.pow 2 11 = 2047 ∧ singleBits n = n) ∨
    n / Nat.pow 2 52 % Nat.pow 2 11 ≠ 2047 ∧
      (singleBits n = bitsOf (n / Nat.pow 2 63) 0 0 ∨ singleBits n = bitsOf (n / Nat.pow 2 63) 2047 0 ∨
        ∃ b f, 873 ≤ b ∧ b < 1151 ∧ f < Nat.pow 2 52 ∧ Nat.pow 2 (droppedBits b) ∣ Nat.pow 2 52 + f ∧
          singleBits n = bitsOf (n / Nat.pow 2 63) b f) := by
  generalize hs : n / Nat.pow 2 63 = s
  generalize hb : n / Nat.pow 2 52 % Nat.pow 2 11 = b
  have hf : n % Nat.pow 2 52 < Nat.pow 2 52 := Nat.mod_lt _ (Nat.two_pow_pos 52)
  generalize hfrac : n % Nat.pow 2 52 = f at hf
  have hzero : s * Nat.pow 2 63 = bitsOf s 0 0 := by simp only [bitsOf, Nat.zero_mul, Nat.add_zero]
  have hinf : s * Nat.pow 2 63 + 2047 * Nat.pow 2 52 = bitsOf s 2047 0 := rfl
  unfold singleBits
  simp only [hs, hb, hfrac]
  split
  · next h => exact .inl ⟨h, rfl⟩
  · next h =>
    refine .inr ⟨h, ?_⟩
    split
    · exact .inl hzero
    · next hlow =>
      have hd : droppedBits b ≤ 53 := by simp only [droppedBits]; omega
      have hdvd : Nat.pow 2 (droppedBits b) ∣ nearestQuotient (Nat.pow 2 52 + f) (droppedBits b) * Nat.pow 2 (droppedBits b) :=
        Nat.dvd_mul_left _ _
      have hcases := rounded_mantissa (m := Nat.pow 2 52 + f) (by omega) (by simp only [Nat.pow_eq] at hf ⊢; omega) hd
      generalize nearestQuotient (Nat.pow 2 52 + f) (droppedBits b) * Nat.pow 2 (droppedBits b) = m at hcases hdvd
      split
      · exact .inl hzero
      · next hm =>
        split
        · next hmag =>
          obtain ⟨b', f', hb', hlt, hf', hdvd', hbits⟩ :=
            fields_of_rounded (Nat.le_of_not_lt hlow) hdvd (hcases.resolve_left hm) hmag
          exact .inr (.inr ⟨b', f', hb', hlt, hf', hdvd', hbits s⟩)
        · exact .inr (.inl hinf)

theorem singleBits_single (hb : 873 ≤ b) (hlt : b < 1151) (hf : f < Nat.pow 2 52)
    (hdvd : Nat.pow 2 (droppedBits b) ∣ Nat.pow 2 52 + f) : singleBits (bitsOf s b f) = bitsOf s b f := by
  have hb' : b < Nat.pow 2 11 := Nat.lt_trans hlt (by decide)
  obtain ⟨q, hq⟩ := hdvd
  have hround : nearestQuotient (Nat.pow 2 52 + f) (droppedBits b) * Nat.pow 2 (droppedBits b) = Nat.pow 2 52 + f := by
    rw [hq, Nat.mul_comm (Nat.pow 2 (droppedBits b)), nearestQuotient_mul]
  have hpos : 0 < Nat.pow 2 52 := Nat.two_pow_pos 52
  unfold singleBits
  simp only [sign_bitsOf hb' hf, biased_bitsOf hb' hf, fraction_bitsOf hf]
  rw [hround, if_neg (by omega), if_neg (by omega),
    if_neg (by omega), if_pos (by simp only [Nat.pow_eq] at hf ⊢; omega)]
  simp only [bitsOf, Nat.pow_eq] at *
  omega

theorem singleBits_idem (n : Nat) : singleBits (singleBits n) = singleBits n := by
  have hpos : (0 : Nat) < Nat.pow 2 52 := Nat.two_pow_pos 52
  rcases singleBits_cases n with ⟨-, h⟩ | ⟨-, h | h | ⟨b, f, hb, hlt, hf, hdvd, h⟩⟩
  · rw [h, h]
  · rw [h]
    unfold singleBits
    simp only [sign_bitsOf (s := n / Nat.pow 2 63) (b := 0) (by decide) hpos,
      biased_bitsOf (s := n / Nat.pow 2 63) (b := 0) (by decide) hpos]
    simp [bitsOf]
  · rw [h]
    unfold singleBits
    simp only [biased_bitsOf (s := n / Nat.pow 2 63) (b := 2047) (by decide) hpos, if_true]
  · rw [h, singleBits_single hb hlt hf hdvd]

end FloatKind

/-! ### Rounding doubles -/

open Float.Model

def NaNBits (n : Nat) : Prop := n / Nat.pow 2 52 % Nat.pow 2 11 = 2047 ∧ n % Nat.pow 2 52 ≠ 0

theorem isNaNBits_iff {b : UInt64} : @UnpackedFloat.isNaNBits .binary64 b.toBitVec = true ↔ NaNBits b.toNat := by
  have hexponent : @UnpackedFloat.unpackExponent .binary64 b.toBitVec = -1#11 ↔
      b.toNat / Nat.pow 2 52 % Nat.pow 2 11 = 2047 := by
    rw [UnpackedFloat.unpackExponent_def, ← BitVec.toNat_inj]
    simp [Nat.shiftRight_eq_div_pow]
  have hmantissa : @UnpackedFloat.unpackMantissa .binary64 b.toBitVec = 0#52 ↔ b.toNat % Nat.pow 2 52 = 0 := by
    rw [UnpackedFloat.unpackMantissa_def, ← BitVec.toNat_inj]
    simp
  rw [UnpackedFloat.isNaNBits, decide_eq_true_eq]
  exact and_congr hexponent (not_congr hmantissa)

theorem isNaN_iff_bits {x : Float} : x.isNaN = true ↔ NaNBits x.toBits.toNat := by
  rw [← isNaNBits_iff]
  have hvalid := x.toModel.valid
  refine (UnpackedFloat.isNaN_unpack_iff_of_valid hvalid).trans ⟨fun h => ?_, fun h => ?_⟩
  · exact h ▸ UnpackedFloat.isNaNBits_packedNaN
  · obtain ⟨hexponent, hmantissa⟩ := of_decide_eq_true h
    exact hvalid.eq_packedNaN hexponent hmantissa

theorem toBits_ofBits {n : Nat} (hn : n < Nat.pow 2 64) (h : ¬ NaNBits n) :
    (Float.ofBits (.ofNat n)).toBits.toNat = n := by
  have hnat : (UInt64.ofNat n).toNat = n := UInt64.toNat_ofNat_of_lt' hn
  have hbits : (Float.ofBits (.ofNat n)).toBits = .ofNat n := by
    refine UInt64.toBitVec_inj.1 ((UnpackedFloat.pack_unpack _).trans (if_neg fun hnan => h ?_))
    rw [← hnat]
    exact isNaNBits_iff.1 hnan
  rw [hbits, hnat]

namespace FloatKind

theorem singleBits_lt {n : Nat} (hn : n < Nat.pow 2 64) : singleBits n < Nat.pow 2 64 := by
  have hs : n / Nat.pow 2 63 ≤ 1 := by
    simp only [Nat.pow_eq] at hn ⊢
    omega
  generalize hsign : n / Nat.pow 2 63 = s at hs
  rcases singleBits_cases n with ⟨-, h⟩ | ⟨-, h | h | ⟨b, f, -, hlt, hf, -, h⟩⟩
  · rw [h]
    exact hn
  all_goals
    rw [h, hsign]
    simp only [bitsOf, Nat.pow_eq] at *
    omega

theorem not_naNBits_singleBits {n : Nat} (h : ¬ NaNBits n) : ¬ NaNBits (singleBits n) := by
  have hpos : (0 : Nat) < Nat.pow 2 52 := Nat.two_pow_pos 52
  rintro ⟨hexponent, hfraction⟩
  rcases singleBits_cases n with ⟨-, heq⟩ | ⟨-, heq | heq | ⟨b, f, -, hlt, hf, -, heq⟩⟩
  · rw [heq] at hexponent hfraction
    exact h ⟨hexponent, hfraction⟩
  · rw [heq, fraction_bitsOf hpos] at hfraction
    exact hfraction rfl
  · rw [heq, fraction_bitsOf hpos] at hfraction
    exact hfraction rfl
  · rw [heq, biased_bitsOf (Nat.lt_trans hlt (by decide)) hf] at hexponent
    omega

theorem singleBits_of_naNBits {n : Nat} (h : NaNBits n) : singleBits n = n := by
  rcases singleBits_cases n with ⟨-, heq⟩ | ⟨hne, -⟩
  · exact heq
  · exact absurd h.1 hne

theorem round_of_isNaN (k : FloatKind) {x : Float} (h : x.isNaN = true) : k.round x = x := by
  cases k with
  | f32 =>
    rw [round, singleBits_of_naNBits (isNaN_iff_bits.1 h), UInt64.ofNat_toNat, Float.ofBits_toBits]
  | f64 => rfl

theorem toBits_round {x : Float} (h : x.isNaN = false) : (round .f32 x).toBits.toNat = singleBits x.toBits.toNat := by
  have hn : ¬ NaNBits x.toBits.toNat := fun hn => by
    rw [isNaN_iff_bits.2 hn] at h
    cases h
  exact toBits_ofBits (singleBits_lt x.toBits.toNat_lt) (not_naNBits_singleBits hn)

theorem isNaN_round (k : FloatKind) (x : Float) : (k.round x).isNaN = x.isNaN := by
  cases hx : x.isNaN with
  | true => rw [round_of_isNaN k hx, hx]
  | false =>
    cases k with
    | f32 =>
      refine Bool.eq_false_iff.2 fun h => ?_
      have hbits := isNaN_iff_bits.1 h
      rw [toBits_round hx] at hbits
      exact not_naNBits_singleBits (fun hn => by rw [isNaN_iff_bits.2 hn] at hx; cases hx) hbits
    | f64 => exact hx

theorem round_round (k : FloatKind) (x : Float) : k.round (k.round x) = k.round x := by
  cases k with
  | f32 =>
    cases hx : x.isNaN with
    | true => rw [round_of_isNaN _ hx, round_of_isNaN _ hx]
    | false =>
      have hbits := toBits_round hx
      rw [round, hbits, singleBits_idem]
      rfl
  | f64 => rfl

end FloatKind

/-! ### Integers -/

/-- Packing makes no number into what is none: an infinity has no fraction, and a finite number has not the
greatest exponent. -/
theorem isNaN_pack {u : UnpackedFloat} (h : u ≠ .notANumber) : (Float.ofModel (.pack u)).isNaN = false := by
  have hinfinity : ∀ s, UnpackedFloat.packedInfinity .binary64 s ≠ UnpackedFloat.packedNaN .binary64 := fun s hs => by
    have hmantissa := congrArg UnpackedFloat.unpackMantissa hs
    simp only [UnpackedFloat.packedInfinity, UnpackedFloat.packedNaN,
      UnpackedFloat.unpackMantissa_packComponents] at hmantissa
    exact absurd hmantissa (by decide)
  refine Bool.eq_false_iff.2 fun hnan => ?_
  have hpacked : UnpackedFloat.pack .binary64 u = UnpackedFloat.packedNaN .binary64 :=
    (UnpackedFloat.isNaN_unpack_iff_of_valid UnpackedFloat.valid_pack).1 hnan
  have hexponent := congrArg UnpackedFloat.unpackExponent hpacked
  cases u with
  | notANumber => exact h rfl
  | infinity s => exact hinfinity s hpacked
  | zero s =>
    simp only [UnpackedFloat.pack, UnpackedFloat.packedZero, UnpackedFloat.packedNaN,
      UnpackedFloat.unpackExponent_packComponents] at hexponent
    exact absurd hexponent (by decide)
  | finite s m e hm =>
    simp only [UnpackedFloat.pack] at hpacked hexponent
    split at hpacked
    · exact hinfinity s hpacked
    · next hlt =>
      rw [if_neg hlt] at hexponent
      split at hexponent
      · simp only [UnpackedFloat.packedNaN, UnpackedFloat.unpackExponent_packComponents] at hexponent
        have hnat := congrArg BitVec.toNat hexponent
        have hones : (-1#11 : BitVec 11).toNat = 2047 := rfl
        rw [BitVec.toNat_ofNat, hones, Nat.mod_eq_of_lt (by omega)] at hnat
        omega
      · simp only [UnpackedFloat.packedNaN, UnpackedFloat.unpackExponent_packComponents] at hexponent
        exact absurd hexponent (by decide)

theorem roundWithAccuracy_ne {s : UnpackedFloat.Sign} {m : Nat} {e : Int} {a : UnpackedFloat.Accuracy} :
    UnpackedFloat.roundWithAccuracy .binary64 s m e a ≠ .notANumber := by
  unfold UnpackedFloat.roundWithAccuracy
  dsimp only
  split
  · rintro ⟨⟩
  · rintro ⟨⟩

theorem ofUInt64_ne (n : UInt64) : UnpackedFloat.ofUInt64 .binary64 n ≠ .notANumber := by
  unfold UnpackedFloat.ofUInt64 UnpackedFloat.ofNat UnpackedFloat.ofInt UnpackedFloat.normalize
  split
  · exact roundWithAccuracy_ne
  · rintro ⟨⟩
  · exact roundWithAccuracy_ne

theorem ofScientific_ne (m : Nat) : UnpackedFloat.ofScientific .binary64 m 0 ≠ .notANumber := by
  unfold UnpackedFloat.ofScientific
  split
  · rintro ⟨⟩
  · split
    · rintro ⟨⟩
    · split
      · rintro ⟨⟩
      · rw [if_pos (Int.le_refl 0), UnpackedFloat.mul]
        exact roundWithAccuracy_ne

theorem isNaN_eq_false_iff {x : Float} : x.isNaN = false ↔ x.toModel.unpack ≠ .notANumber := by
  rw [Ne, ← UnpackedFloat.isNaN_iff, Bool.not_eq_true]
  rfl

theorem isNaN_mul_one {x : Float} (h : x.isNaN = false) : (x * .ofBits 4607182418800017408).isNaN = false := by
  refine isNaN_pack ?_
  have hx := isNaN_eq_false_iff.1 h
  have hone : ∃ s m e hm, (Float.ofBits 4607182418800017408).toModel.unpack = .finite s m e hm := ⟨_, _, _, _, rfl⟩
  obtain ⟨s, m, e, hm, hone⟩ := hone
  rw [hone]
  cases hu : x.toModel.unpack with
  | notANumber => exact absurd hu hx
  | infinity | zero => rintro ⟨⟩
  | finite =>
    rw [UnpackedFloat.mul]
    exact roundWithAccuracy_ne

theorem isNaN_neg {x : Float} (h : x.isNaN = false) : (-x).isNaN = false := by
  refine isNaN_pack ?_
  have hx := isNaN_eq_false_iff.1 h
  cases hu : x.toModel.unpack with
  | notANumber => exact absurd hu hx
  | infinity | zero | finite => rintro ⟨⟩

theorem isNaN_nearest (m : Nat) : (Decimal.nearest m 0).isNaN = false := by
  unfold Decimal.nearest
  split
  · rfl
  · dsimp only
    split
    · rfl
    · split
      · rfl
      · rw [if_pos (Int.le_refl 0)]
        unfold Float.ofScientific
        split
        · exact isNaN_mul_one (isNaN_pack (ofUInt64_ne _))
        · exact isNaN_pack (ofScientific_ne m)

theorem isNaN_ofInt (n : Int) : (Decimal.ofInt n).isNaN = false := by
  unfold Decimal.ofInt
  split
  · exact isNaN_neg (isNaN_nearest _)
  · exact isNaN_nearest _

end Stencil
