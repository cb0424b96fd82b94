import Mathlib
import TaggedEval.Proofs.Number.Arithmetic

/-!
# The sign of a double

A finite double is determined by the number that it stands for and by its sign, which tells the two
zeros apart (`Denotes.eq_of_sign`). A sum that cancels is the upper zero unless both terms are the
lower one, and the sign of a product is the product of the signs, whether it is zero or not.
-/

namespace TaggedEval

open Float.Model Float.Model.UnpackedFloat

/-- The sign of a double in parts. What is not a number has none of its own. -/
def partsSign : UnpackedFloat → Sign
  | .infinity sign => sign
  | .notANumber => .positive
  | .zero sign => sign
  | .finite sign _ _ _ => sign

/-- The sign bit of a double. -/
def signOf (x : Float) : Sign :=
  partsSign x.toModel.unpack

/-! ## Unpacking and packing -/

theorem toBitVec_ofBitVec (bit : BitVec 1) : (Sign.ofBitVec bit).toBitVec = bit := by
  revert bit
  decide

/-- The bits of a double are its sign, its exponent and its mantissa. -/
theorem packComponents_eq {b : BitVec 64} {exponent : BitVec 11} {mantissa : BitVec 52}
    (hexponent : @unpackExponent Format.binary64 b = exponent)
    (hmantissa : @unpackMantissa Format.binary64 b = mantissa) :
    packComponents Format.binary64 (Sign.ofBitVec (@unpackSign Format.binary64 b)) exponent
      mantissa = b := by
  subst hexponent hmantissa
  rw [packComponents, toBitVec_ofBitVec]
  simp only [unpackSign, unpackExponent, unpackMantissa]
  ext i hi
  grind

theorem log2_one_append (mantissa : BitVec 52) : (1#1 ++ mantissa).toNat.log2 = 52 := by
  have hlt : (1#1 ++ mantissa).toNat < 2 ^ 53 := (1#1 ++ mantissa).isLt
  have hge : 2 ^ 52 ≤ (1#1 ++ mantissa).toNat := by
    rw [BitVec.toNat_append]
    exact Nat.left_le_or
  exact (Nat.log2_eq_iff (toNat_one_append_pos mantissa).ne').mpr ⟨hge, hlt⟩

/-- The implicit bit is dropped again. -/
theorem ofNat_one_append (mantissa : BitVec 52) :
    BitVec.ofNat 52 (1#1 ++ mantissa).toNat = mantissa := by
  rw [BitVec.ofNat_toNat]
  ext i hi
  grind

theorem pack_unpack_bits {b : BitVec 64} (hvalid : Format.binary64.Valid b) :
    UnpackedFloat.pack Format.binary64 (UnpackedFloat.unpack Format.binary64 b) = b := by
  have hbias : Format.binary64.exponentBias = 1023 := rfl
  have hbits : Format.binary64.mantissaBits = 53 := rfl
  simp only [UnpackedFloat.unpack]
  split
  · -- Infinity and NaN. A valid double has only one NaN.
    rename_i hones
    split
    · rename_i hmantissa
      exact packComponents_eq hones hmantissa
    · rename_i hmantissa
      exact (hvalid.eq_packedNaN hones hmantissa).symm
  · rename_i hones
    split
    · rename_i hzero
      split
      · rename_i hmantissa
        exact packComponents_eq hzero hmantissa
      · -- A subnormal mantissa has no bit where the implicit one stands.
        rename_i hmantissa
        have hpos : (@unpackMantissa Format.binary64 b).toNat ≠ 0 :=
          fun h => hmantissa (BitVec.eq_of_toNat_eq h)
        have hlog : (@unpackMantissa Format.binary64 b).toNat.log2 < 52 :=
          (Nat.log2_lt hpos).mpr (@unpackMantissa Format.binary64 b).isLt
        simp only [UnpackedFloat.pack, hbias, hbits, hzero, BitVec.toNat_zero]
        rw [if_neg (by decide), if_neg (by omega)]
        refine packComponents_eq hzero ?_
        rw [BitVec.ofNat_toNat, BitVec.setWidth_eq]
    · -- A normal number has an exponent that is neither zero nor all ones.
      have hlog := log2_one_append (@unpackMantissa Format.binary64 b)
      have hlt : (@unpackExponent Format.binary64 b).toNat < 2047 := by
        have hne : (@unpackExponent Format.binary64 b).toNat ≠ 2047 :=
          fun h => hones (BitVec.eq_of_toNat_eq h)
        have hbound : (@unpackExponent Format.binary64 b).toNat < 2048 := BitVec.isLt _
        omega
      have hexponent : ((@unpackExponent Format.binary64 b).toNat - ((1023 : ℕ) + (52 : ℕ) : ℤ) +
          (1023 : ℕ) + (52 : ℕ)).toNat = (@unpackExponent Format.binary64 b).toNat := by
        omega
      simp only [UnpackedFloat.pack, hbias, hbits, hexponent, hlog]
      rw [if_neg (by omega), if_pos trivial]
      refine packComponents_eq ?_ (ofNat_one_append _).symm
      rw [BitVec.ofNat_toNat, BitVec.setWidth_eq]

theorem pack_unpack (m : Float.Model) : Float.Model.pack m.unpack = m := by
  obtain ⟨bits, hvalid⟩ := m
  have hbits : UnpackedFloat.pack Format.binary64 (UnpackedFloat.unpack Format.binary64 bits.toBitVec) =
      bits.toBitVec := pack_unpack_bits hvalid
  simp only [Float.Model.pack, Float.Model.unpack, hbits]

/-- A double is determined by its parts. -/
theorem eq_of_unpack_eq {x y : Float} (h : x.toModel.unpack = y.toModel.unpack) : x = y := by
  have hmodel : x.toModel = y.toModel := by rw [← pack_unpack x.toModel, h, pack_unpack]
  cases x
  cases y
  exact congrArg Float.ofModel hmodel

/-! ## The number and the sign -/

/-- The sign of a number. Zero counts as positive. -/
def numberSign (q : ℚ) : Sign :=
  if q < 0 then .negative else .positive

theorem numberSign_of_nonneg {q : ℚ} (h : 0 ≤ q) : numberSign q = .positive :=
  if_neg (not_lt_of_ge h)

theorem ExactParts.sign_eq {u : UnpackedFloat} {q : ℚ} (h : ExactParts u q) (hq : q ≠ 0) :
    partsSign u = numberSign q := by
  cases h with
  | zero sign => exact absurd rfl hq
  | finite sign pos canonical le =>
    have hpos := RoundingInterval.middle_pos canonical
    cases sign with
    | negative =>
      rw [apply_negative, numberSign, if_pos (neg_neg_of_pos hpos)]
      rfl
    | positive =>
      rw [apply_positive, numberSign_of_nonneg hpos.le]
      rfl

theorem apply_ne_zero (sign : Sign) {m : Nat} {e : Int}
    (canonical : (RoundingInterval.mk m e).Canonical) : (sign.apply m * 2 ^ e : ℚ) ≠ 0 := by
  rw [← abs_pos, abs_apply sign canonical]
  exact RoundingInterval.middle_pos canonical

theorem ExactParts.eq_of_sign {u v : UnpackedFloat} {q : ℚ} (hu : ExactParts u q)
    (hv : ExactParts v q) (h : partsSign u = partsSign v) : u = v := by
  generalize hp : q = p at hv
  cases hu with
  | zero sign =>
    cases hv with
    | zero sign' => exact congrArg UnpackedFloat.zero h
    | finite sign' pos canonical le => exact absurd hp.symm (apply_ne_zero sign' canonical)
  | finite sign pos canonical le =>
    cases hv with
    | zero sign' => exact absurd hp (apply_ne_zero sign canonical)
    | finite sign' pos' canonical' le' =>
      rw [← value_eq_apply, ← value_eq_apply] at hp
      obtain ⟨rfl, rfl, rfl⟩ := BinaryNumber.eq_of_value_eq canonical canonical' hp
      rfl

/-- A finite double is determined by its number and its sign. -/
theorem Denotes.eq_of_sign {x y : Float} {q : ℚ} (hx : Denotes x q) (hy : Denotes y q)
    (h : signOf x = signOf y) : x = y :=
  eq_of_unpack_eq ((denotes_iff_exactParts.mp hx).eq_of_sign (denotes_iff_exactParts.mp hy) h)

/-! ## The signs of sums and products -/

/-- A sum that cancels is the upper zero, if the second term is not the lower one. -/
theorem partsSign_add_of_cancel {u v : UnpackedFloat} {p q : ℚ} (hu : ExactParts u p) (hv : ExactParts v q)
    (hsum : p + q = 0) (hsign : partsSign v = numberSign q) :
    partsSign (UnpackedFloat.add Format.binary64 u v) = .positive := by
  cases hu with
  | zero sign =>
    cases hv with
    | zero sign' =>
      obtain rfl : sign' = .positive := hsign.trans (numberSign_of_nonneg le_rfl)
      cases sign <;> rfl
    | finite sign' pos canonical le =>
      rw [zero_add] at hsum
      exact absurd hsum (apply_ne_zero sign' canonical)
  | @finite sign m e pos canonical le =>
    cases hv with
    | zero sign' =>
      rw [add_zero] at hsum
      exact absurd hsum (apply_ne_zero sign canonical)
    | @finite sign' m' e' pos' canonical' le' =>
      have hvalue := decreaseExponent_value sign m (min_le_left e e')
      have hvalue' := decreaseExponent_value sign' m' (min_le_right e e')
      rw [← hvalue, ← hvalue', ← add_mul, ← Int.cast_add] at hsum
      -- The sum of the mantissas is zero, and `normalize` gives that the upper sign.
      have hzero := Int.cast_eq_zero.mp ((mul_eq_zero_iff_right (by positivity)).mp hsum)
      simp only [UnpackedFloat.add, UnpackedFloat.normalize, hzero]
      rfl

theorem partsSign_mul {u v : UnpackedFloat} {p q : ℚ} (hu : ExactParts u p)
    (hv : ExactParts v q) :
    partsSign (UnpackedFloat.mul Format.binary64 u v) = partsSign u * partsSign v := by
  cases hu with
  | zero sign => cases hv <;> rfl
  | finite sign pos canonical le =>
    cases hv with
    | zero sign' => rfl
    | finite sign' pos' canonical' le' =>
      simp only [UnpackedFloat.mul, roundWithAccuracy]
      split <;> rfl

theorem signOf_add {x y : Float} {a b : ℤ} (hx : Denotes x a) (hy : Denotes y b)
    (h : |a + b| ≤ 2 ^ 53) (hsign : signOf y = numberSign b) :
    signOf (x + y) = numberSign ↑(a + b) := by
  have hu := denotes_iff_exactParts.mp hx
  have hv := denotes_iff_exactParts.mp hy
  by_cases hzero : a + b = 0
  · -- The number does not tell the sign of a zero, so the parts of the sum are looked at.
    obtain ⟨r, hparts, -⟩ := exists_exactParts_add hu hv (by exact_mod_cast h)
    have hunpack : (x + y).toModel.unpack = _ := hparts.unpack_pack
    rw [hzero, Int.cast_zero, numberSign_of_nonneg le_rfl, signOf, hunpack]
    exact partsSign_add_of_cancel hu hv (by exact_mod_cast hzero) hsign
  · have hparts := denotes_iff_exactParts.mp (hx.add_integer hy h)
    exact hparts.sign_eq (Int.cast_ne_zero.mpr hzero)

theorem signOf_mul {x y : Float} {p q : ℚ} (hx : Denotes x p) (hy : Denotes y q)
    (h : |p * q| ≤ 2 ^ 53) : signOf (x * y) = signOf x * signOf y := by
  have hu := denotes_iff_exactParts.mp hx
  have hv := denotes_iff_exactParts.mp hy
  obtain ⟨r, hparts, -⟩ := exists_exactParts_mul hu hv h
  have hunpack : (x * y).toModel.unpack = _ := hparts.unpack_pack
  rw [signOf, hunpack]
  exact partsSign_mul hu hv

end TaggedEval
