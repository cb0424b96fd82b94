import Mathlib
import TaggedEval.Proofs.Number.Equality

/-!
# Doubles as rational numbers

A finite double stands for one rational number (`Denotes`). Its parts are in normal form, and every
normal form whose exponent is in range is the parts of a double (`ExactParts.unpack_pack`). A larger
exponent outweighs the mantissa, so comparing doubles part by part is comparing the numbers that
they stand for (`Denotes.le_iff`).
-/

namespace TaggedEval

open Float.Model Float.Model.UnpackedFloat

/-- The double is finite, and this is the number that it stands for. -/
def Denotes (x : Float) (q : ℚ) : Prop :=
  ∃ b, BinaryNumber.ofFloat? x = some b ∧ b.value = q

theorem Denotes.unique {x : Float} {p q : ℚ} (hp : Denotes x p) (hq : Denotes x q) : p = q := by
  obtain ⟨b, hb, rfl⟩ := hp
  obtain ⟨c, hc, rfl⟩ := hq
  rw [hb] at hc
  rw [Option.some_inj.mp hc]

theorem denotes_zero : Denotes 0 0 :=
  ⟨⟨false, 0, 0⟩, rfl, BinaryNumber.value_zero false⟩

theorem denotes_one : Denotes 1 1 :=
  ⟨⟨false, 2 ^ 52, -52⟩, rfl, by norm_num [BinaryNumber.value]⟩

/-! ## Floor and ceiling -/

namespace BinaryNumber

theorem value_mul_denominator (b : BinaryNumber) : b.value * b.denominator = b.numerator := by
  have hpow := RoundingInterval.pow_toNat_eq (b := 2) (by norm_num) b.exponent
  simp only [value, numerator, denominator, Nat.pow_eq]
  push_cast
  rw [hpow, mul_assoc]

theorem value_eq_div (b : BinaryNumber) : b.value = b.numerator / b.denominator := by
  rw [eq_div_iff (by exact_mod_cast b.denominator_ne_zero), value_mul_denominator]

theorem floor_eq (b : BinaryNumber) : b.floor = ⌊b.value⌋ := by
  rw [value_eq_div, Rat.floor_intCast_div_natCast, floor]

theorem ceil_eq (b : BinaryNumber) : b.ceil = ⌈b.value⌉ := by
  rw [value_eq_div, Rat.ceil_intCast_div_natCast, ceil]

end BinaryNumber

/-! ## Magnitudes -/

namespace RoundingInterval

variable {r r' : RoundingInterval}

/-- The positive number that the interval surrounds. -/
def middle (r : RoundingInterval) : ℚ :=
  r.mantissa * 2 ^ r.exponent

theorem middle_pos (h : r.Canonical) : 0 < r.middle :=
  mul_pos (Nat.cast_pos.mpr h.pos) (by positivity)

theorem full_of_lowest_lt (h : r.Canonical) (hlt : -1074 < r.exponent) : 2 ^ 52 ≤ r.mantissa := by
  rcases h.full with hfull | hexponent
  · exact hfull
  · omega

/-- A larger exponent outweighs whatever the mantissas are. -/
theorem middle_lt_of_exponent_lt (h : r.Canonical) (h' : r'.Canonical)
    (hlt : r.exponent < r'.exponent) : r.middle < r'.middle := by
  have hmantissa : (r.mantissa : ℚ) < 2 ^ 53 := by exact_mod_cast h.lt
  have hmantissa' : (2 : ℚ) ^ 52 ≤ r'.mantissa := by
    exact_mod_cast full_of_lowest_lt h' (lt_of_le_of_lt h.lowest hlt)
  calc r.middle < 2 ^ 53 * 2 ^ r.exponent := mul_lt_mul_of_pos_right hmantissa (by positivity)
    _ = 2 ^ 52 * 2 ^ (r.exponent + 1) := by
        rw [zpow_add_one₀ (by norm_num)]
        ring
    _ ≤ 2 ^ 52 * 2 ^ r'.exponent :=
        mul_le_mul_of_nonneg_left (zpow_le_zpow_right₀ (by norm_num) hlt) (by norm_num)
    _ ≤ r'.middle := mul_le_mul_of_nonneg_right hmantissa' (by positivity)

theorem compare_mantissa (h : r.exponent = r'.exponent) :
    compare r.mantissa r'.mantissa = compare r.middle r'.middle := by
  have hpos : (0 : ℚ) < 2 ^ r'.exponent := by positivity
  have hmono : StrictMono fun n : ℕ => (n : ℚ) * 2 ^ r'.exponent :=
    fun m n hlt => mul_lt_mul_of_pos_right (Nat.cast_lt.mpr hlt) hpos
  rw [middle, middle, h]
  exact ((compare_iff _ _).mpr (hmono.compares.mpr ((compare_iff _ _).mp rfl))).symm

theorem compare_parts (h : r.Canonical) (h' : r'.Canonical) :
    (compare r.exponent r'.exponent).then (compare r.mantissa r'.mantissa) =
      compare r.middle r'.middle := by
  rcases lt_trichotomy r.exponent r'.exponent with hlt | heq | hgt
  · rw [compare_lt_iff_lt.mpr hlt, compare_lt_iff_lt.mpr (middle_lt_of_exponent_lt h h' hlt)]
    rfl
  · rw [compare_eq_iff_eq.mpr heq]
    exact compare_mantissa heq
  · rw [compare_gt_iff_gt.mpr hgt, compare_gt_iff_gt.mpr (middle_lt_of_exponent_lt h' h hgt)]
    rfl

/-- Below `2 ^ 53` two neighbours are at most `1` apart. -/
theorem middle_le_of_lt (h : r.Canonical) (hlt : r.middle < 2 ^ 53) : r.middle ≤ 2 ^ 53 - 1 := by
  have hmantissa : (r.mantissa : ℚ) ≤ 2 ^ 53 - 1 := by
    have hle : r.mantissa + 1 ≤ 2 ^ 53 := h.lt
    rw [le_sub_iff_add_le]
    exact_mod_cast hle
  rcases le_or_gt r.exponent 0 with hsmall | hlarge
  · calc r.middle ≤ r.mantissa * 1 :=
          mul_le_mul_of_nonneg_left (zpow_le_one_of_nonpos₀ (by norm_num) hsmall) (by positivity)
      _ ≤ 2 ^ 53 - 1 := by rwa [mul_one]
  · have hfull : (2 : ℚ) ^ 52 ≤ r.mantissa := by
      exact_mod_cast full_of_lowest_lt h (by omega)
    have hpow : (2 : ℚ) ^ (1 : ℤ) ≤ 2 ^ r.exponent := zpow_le_zpow_right₀ (by norm_num) hlarge
    have hge : (2 : ℚ) ^ 52 * 2 ^ (1 : ℤ) ≤ r.middle :=
      mul_le_mul hfull hpow (by positivity) (by positivity)
    norm_num at hge hlt
    linarith

end RoundingInterval

open RoundingInterval

/-! ## Numbers in parts -/

/-- The parts of a finite double that stands for this number. -/
inductive ExactParts : UnpackedFloat → ℚ → Prop
  | zero (sign : Sign) : ExactParts (.zero sign) 0
  | finite (sign : Sign) {mantissa : Nat} {exponent : Int} (pos : 0 < mantissa)
      (canonical : (RoundingInterval.mk mantissa exponent).Canonical) (le : exponent ≤ 971) :
      ExactParts (.finite sign mantissa exponent pos) (sign.apply mantissa * 2 ^ exponent)

theorem apply_positive (mantissa : Nat) (exponent : Int) :
    (Sign.positive.apply mantissa * 2 ^ exponent : ℚ) =
      (RoundingInterval.mk mantissa exponent).middle :=
  rfl

theorem apply_negative (mantissa : Nat) (exponent : Int) :
    (Sign.negative.apply mantissa * 2 ^ exponent : ℚ) =
      -(RoundingInterval.mk mantissa exponent).middle := by
  rw [Sign.apply, Int.cast_neg, neg_mul]
  rfl

theorem value_eq_apply (sign : Sign) (mantissa : Nat) (exponent : Int) :
    BinaryNumber.value ⟨sign == .negative, mantissa, exponent⟩ =
      sign.apply mantissa * 2 ^ exponent := by
  cases sign with
  | negative => exact (BinaryNumber.value_negative _ _).trans (apply_negative _ _).symm
  | positive => exact BinaryNumber.value_positive _ _

theorem abs_apply (sign : Sign) {mantissa : Nat} {exponent : Int}
    (h : (RoundingInterval.mk mantissa exponent).Canonical) :
    |(sign.apply mantissa * 2 ^ exponent : ℚ)| = (RoundingInterval.mk mantissa exponent).middle := by
  cases sign with
  | negative => rw [apply_negative, abs_neg, abs_of_pos (middle_pos h)]
  | positive => rw [apply_positive, abs_of_pos (middle_pos h)]

/-- The highest exponent of all belongs to infinity and NaN. -/
theorem exponent_le_of_unpack {x : Float} {sign : Sign} {mantissa : Nat} {exponent : Int}
    {pos : 0 < mantissa} (h : x.toModel.unpack = .finite sign mantissa exponent pos) :
    exponent ≤ 971 := by
  have hbits : (@unpackExponent Format.binary64 x.toModel.toBits.toBitVec).toNat < 2048 :=
    BitVec.isLt _
  simp only [Float.Model.unpack, UnpackedFloat.unpack, Format.exponentBias] at h
  split at h
  · split at h <;> cases h
  · rename_i hhighest
    have htop : (@unpackExponent Format.binary64 x.toModel.toBits.toBitVec).toNat ≠ 2047 :=
      fun heq => hhighest (BitVec.eq_of_toNat_eq heq)
    split at h
    · split at h
      · cases h
      · rename_i hzero _
        rw [hzero] at h
        injection h with _ _ hexponent
        simp only [BitVec.toNat_zero] at hexponent
        omega
    · injection h with _ _ hexponent
      omega

theorem denotes_iff_exactParts {x : Float} {q : ℚ} :
    Denotes x q ↔ ExactParts x.toModel.unpack q := by
  constructor
  · rintro ⟨b, hb, rfl⟩
    rcases BinaryNumber.eq_of_ofFloat? hb with ⟨sign, hu, rfl⟩ | ⟨sign, m, e, pos, hu, rfl⟩
    · rw [hu, BinaryNumber.value_zero]
      exact .zero sign
    · rw [hu, value_eq_apply]
      exact .finite sign pos (canonical_of_unpack hu) (exponent_le_of_unpack hu)
  · intro h
    generalize hu : x.toModel.unpack = u at h
    cases h with
    | zero sign => exact ⟨_, BinaryNumber.ofFloat?_of_zero hu, BinaryNumber.value_zero _⟩
    | finite sign pos canonical le =>
      exact ⟨_, BinaryNumber.ofFloat?_of_finite hu, value_eq_apply sign _ _⟩

theorem ExactParts.isFinite {u : UnpackedFloat} {q : ℚ} (h : ExactParts u q) :
    u.isFinite = true := by
  cases h <;> rfl

theorem exists_denotes_iff {x : Float} : (∃ q, Denotes x q) ↔ x.isFinite = true := by
  show _ ↔ x.toModel.unpack.isFinite = true
  simp only [denotes_iff_exactParts]
  constructor
  · rintro ⟨q, h⟩
    exact h.isFinite
  · intro h
    cases hu : x.toModel.unpack with
    | infinity sign => rw [hu] at h; cases h
    | notANumber => rw [hu] at h; cases h
    | zero sign => exact ⟨0, .zero sign⟩
    | finite sign mantissa exponent pos =>
      exact ⟨_, .finite sign pos (canonical_of_unpack hu) (exponent_le_of_unpack hu)⟩

theorem isFinite_iff (x : Float) : x.isFinite = true ↔ ¬ (x.isNaN = true ∨ x.isInf = true) := by
  show x.toModel.unpack.isFinite = true ↔
    ¬ (x.toModel.unpack.isNaN = true ∨ x.toModel.unpack.isInf = true)
  cases x.toModel.unpack <;>
    simp [UnpackedFloat.isFinite, UnpackedFloat.isNaN, UnpackedFloat.isInf]

/-! ## Packing -/

theorem ofBitVec_unpackSign_packComponents (sign : Sign) (exponent : BitVec 11)
    (mantissa : BitVec 52) :
    Sign.ofBitVec (unpackSign (packComponents Format.binary64 sign exponent mantissa)) = sign := by
  have hsign : unpackSign (packComponents Format.binary64 sign exponent mantissa) =
      sign.toBitVec := by
    apply BitVec.eq_of_getLsbD_eq
    intro i hi
    obtain rfl : i = 0 := by omega
    simp only [unpackSign, packComponents, BitVec.getLsbD_cast, BitVec.getLsbD_extractLsb]
    show (sign.toBitVec ++ exponent ++ mantissa : BitVec (1 + 11 + 52)).getLsbD 63 = _
    rw [BitVec.getLsbD_append, BitVec.getLsbD_append]
    rfl
  rw [hsign]
  cases sign <;> rfl

theorem toNat_one_append_pos (mantissa : BitVec 52) : 0 < (1#1 ++ mantissa).toNat := by
  rw [BitVec.toNat_append]
  exact Nat.lt_of_lt_of_le (by decide : 0 < 1 <<< 52) Nat.left_le_or

/-- The implicit bit stands in front of the other 52. -/
theorem toNat_one_append {mantissa : Nat} (hfull : 2 ^ 52 ≤ mantissa) (hlt : mantissa < 2 ^ 53) :
    (1#1 ++ BitVec.ofNat 52 mantissa).toNat = mantissa := by
  rw [BitVec.toNat_append, ← Nat.shiftLeft_add_eq_or_of_lt (BitVec.isLt _), BitVec.toNat_ofNat,
    BitVec.toNat_ofNat, Nat.shiftLeft_eq]
  omega

theorem unpack_packComponents_normal (sign : Sign) {exponent : BitVec 11} (mantissa : BitVec 52)
    (hzero : exponent ≠ 0#11) (hones : exponent ≠ -1#11) :
    UnpackedFloat.unpack Format.binary64 (packComponents Format.binary64 sign exponent mantissa) =
      .finite sign (1#1 ++ mantissa).toNat (exponent.toNat - 1075)
        (toNat_one_append_pos mantissa) := by
  simp only [UnpackedFloat.unpack, unpackMantissa_packComponents, unpackExponent_packComponents,
    ofBitVec_unpackSign_packComponents, if_neg hzero, if_neg hones]
  rfl

theorem unpack_packComponents_subnormal (sign : Sign) {mantissa : BitVec 52}
    (hpos : 0 < mantissa.toNat) :
    UnpackedFloat.unpack Format.binary64 (packComponents Format.binary64 sign 0#11 mantissa) =
      .finite sign mantissa.toNat (-1074) hpos := by
  have hzero : mantissa ≠ 0#52 := fun h => by simp [h] at hpos
  simp only [UnpackedFloat.unpack, unpackMantissa_packComponents, unpackExponent_packComponents,
    ofBitVec_unpackSign_packComponents, dif_neg hzero]
  rfl

theorem unpack_pack_normal (sign : Sign) {mantissa : Nat} {exponent : Int} (pos : 0 < mantissa)
    (hfull : 2 ^ 52 ≤ mantissa) (hlt : mantissa < 2 ^ 53) (hlowest : -1074 ≤ exponent)
    (hle : exponent ≤ 971) :
    (Float.Model.pack (.finite sign mantissa exponent pos)).unpack =
      .finite sign mantissa exponent pos := by
  have hbias : Format.binary64.exponentBias = 1023 := rfl
  have hbits : Format.binary64.mantissaBits = 53 := rfl
  have hlog : mantissa.log2 + 1 = 53 := by
    rw [(Nat.log2_eq_iff pos.ne').mpr ⟨hfull, hlt⟩]
  have hexponent : (BitVec.ofNat 11 (exponent + 1023 + 52).toNat).toNat =
      (exponent + 1023 + 52).toNat := by
    rw [BitVec.toNat_ofNat, Nat.mod_eq_of_lt (by omega)]
  show UnpackedFloat.unpack Format.binary64 (UnpackedFloat.pack Format.binary64 _) = _
  simp only [UnpackedFloat.pack, hbias, hbits]
  rw [if_neg (by omega), if_pos hlog, unpack_packComponents_normal, UnpackedFloat.finite.injEq]
  · refine ⟨rfl, toNat_one_append hfull hlt, ?_⟩
    refine (congrArg (fun n : Nat => (n : Int) - 1075) hexponent).trans ?_
    omega
  · intro hzero
    have hnat := hexponent.symm.trans (congrArg BitVec.toNat hzero)
    simp only [BitVec.toNat_zero] at hnat
    omega
  · intro hones
    have hnat : _ = 2047 := hexponent.symm.trans (congrArg BitVec.toNat hones)
    omega

theorem unpack_pack_subnormal (sign : Sign) {mantissa : Nat} (pos : 0 < mantissa)
    (hlt : mantissa < 2 ^ 52) :
    (Float.Model.pack (.finite sign mantissa (-1074) pos)).unpack =
      .finite sign mantissa (-1074) pos := by
  have hbias : Format.binary64.exponentBias = 1023 := rfl
  have hbits : Format.binary64.mantissaBits = 53 := rfl
  have hlog : mantissa.log2 + 1 ≠ 53 := by
    have hbound := (Nat.log2_lt pos.ne').mpr hlt
    omega
  have hmantissa : (BitVec.ofNat 52 mantissa).toNat = mantissa := by
    rw [BitVec.toNat_ofNat, Nat.mod_eq_of_lt hlt]
  show UnpackedFloat.unpack Format.binary64 (UnpackedFloat.pack Format.binary64 _) = _
  simp only [UnpackedFloat.pack, hbias, hbits]
  rw [if_neg (by omega), if_neg hlog, unpack_packComponents_subnormal sign (by omega)]
  simp only [hmantissa]

theorem unpack_pack_finite (sign : Sign) {mantissa : Nat} {exponent : Int} (pos : 0 < mantissa)
    (h : (RoundingInterval.mk mantissa exponent).Canonical) (hle : exponent ≤ 971) :
    (Float.Model.pack (.finite sign mantissa exponent pos)).unpack =
      .finite sign mantissa exponent pos := by
  obtain ⟨-, hlt, hlowest, hfull⟩ := h
  by_cases hbit : 2 ^ 52 ≤ mantissa
  · exact unpack_pack_normal sign pos hbit hlt hlowest hle
  · obtain rfl := hfull.resolve_left hbit
    exact unpack_pack_subnormal sign pos (Nat.lt_of_not_le hbit)

theorem ExactParts.unpack_pack {u : UnpackedFloat} {q : ℚ} (h : ExactParts u q) :
    (Float.Model.pack u).unpack = u := by
  cases h with
  | zero sign => cases sign <;> rfl
  | finite sign pos canonical le => exact unpack_pack_finite sign pos canonical le

theorem ExactParts.denotes {u : UnpackedFloat} {q : ℚ} (h : ExactParts u q) :
    Denotes (.ofModel (.pack u)) q := by
  rw [denotes_iff_exactParts, h.unpack_pack]
  exact h

/-! ## Comparing -/

theorem compare_neg_neg (p q : ℚ) : compare (-p) (-q) = (compare p q).swap := by
  rw [← Std.OrientedOrd.eq_swap]
  exact (compare_iff _ _).mpr
    ((StrictAnti.compares fun _ _ => neg_lt_neg).mpr ((compare_iff _ _).mp rfl))

theorem ExactParts.compare_eq {u v : UnpackedFloat} {p q : ℚ} (hu : ExactParts u p)
    (hv : ExactParts v q) : u.compare v = some (compare p q) := by
  cases hu with
  | zero sign =>
    cases hv with
    | zero sign' =>
      rw [compare_eq_iff_eq.mpr rfl]
      rfl
    | finite sign' _ h' _ =>
      have hpos := middle_pos h'
      cases sign' with
      | negative => rw [apply_negative, compare_gt_iff_gt.mpr (neg_neg_of_pos hpos)]; rfl
      | positive => rw [apply_positive, compare_lt_iff_lt.mpr hpos]; rfl
  | finite sign _ h _ =>
    have hpos := middle_pos h
    cases hv with
    | zero sign' =>
      cases sign with
      | negative => rw [apply_negative, compare_lt_iff_lt.mpr (neg_neg_of_pos hpos)]; rfl
      | positive => rw [apply_positive, compare_gt_iff_gt.mpr hpos]; rfl
    | finite sign' _ h' _ =>
      have hpos' := middle_pos h'
      have hparts := compare_parts h h'
      cases sign with
      | negative =>
        rw [apply_negative]
        cases sign' with
        | negative => rw [apply_negative, compare_neg_neg, ← hparts]; rfl
        | positive => rw [apply_positive, compare_lt_iff_lt.mpr (by linarith)]; rfl
      | positive =>
        rw [apply_positive]
        cases sign' with
        | negative => rw [apply_negative, compare_gt_iff_gt.mpr (by linarith)]; rfl
        | positive => rw [apply_positive, ← hparts]; rfl

namespace Denotes

variable {x y : Float} {p q : ℚ}

theorem compare_eq (hx : Denotes x p) (hy : Denotes y q) :
    x.toModel.unpack.compare y.toModel.unpack = some (compare p q) :=
  (denotes_iff_exactParts.mp hx).compare_eq (denotes_iff_exactParts.mp hy)

/-- Comparing doubles is comparing the numbers that they stand for. -/
theorem le_iff (hx : Denotes x p) (hy : Denotes y q) : x ≤ y ↔ p ≤ q := by
  show decide (x.toModel.unpack.le y.toModel.unpack = true) = true ↔ _
  rw [decide_eq_true_iff, UnpackedFloat.le, hx.compare_eq hy, Option.any_some,
    ← Ordering.ne_gt_iff_isLE]
  exact compare_le_iff_le

theorem lt_iff (hx : Denotes x p) (hy : Denotes y q) : x < y ↔ p < q := by
  show decide (x.toModel.unpack.lt y.toModel.unpack = true) = true ↔ _
  rw [decide_eq_true_iff, UnpackedFloat.lt, hx.compare_eq hy, beq_iff_eq, Option.some_inj,
    compare_lt_iff_lt]

theorem abs (hx : Denotes x q) : Denotes x.abs |q| := by
  apply ExactParts.denotes
  have hparts := denotes_iff_exactParts.mp hx
  generalize x.toModel.unpack = u at hparts
  cases hparts with
  | zero sign =>
    rw [abs_zero]
    exact .zero .positive
  | finite sign pos canonical le =>
    rw [abs_apply sign canonical, ← apply_positive]
    exact .finite .positive pos canonical le

/-- Below `2 ^ 53` the largest double is `2 ^ 53 - 1`. -/
theorem abs_le_of_lt (hx : Denotes x q) (hlt : |q| < 2 ^ 53) : |q| ≤ 2 ^ 53 - 1 := by
  have hparts := denotes_iff_exactParts.mp hx
  generalize x.toModel.unpack = u at hparts
  cases hparts with
  | zero sign => norm_num
  | finite sign pos canonical le =>
    rw [abs_apply sign canonical] at hlt ⊢
    exact middle_le_of_lt canonical hlt

end Denotes

end TaggedEval
