import Mathlib
import TaggedEval.Number.Binary
import TaggedEval.Proofs.Number.Interval

/-!
# Equality of doubles

Doubles are equal when they have the same parts, and zeros whatever their signs (`beq_iff_unpack`).
The parts of a finite double are in normal form, so this says that the doubles stand for the same
number (`beq_iff_sameNumber`). NaN stands for none.
-/

namespace TaggedEval

open Float.Model Float.Model.UnpackedFloat

/-! ## The parts of a double -/

theorem canonical_of_unpack {x : Float} {sign : Sign} {mantissa : Nat} {exponent : Int}
    {pos : 0 < mantissa} (h : x.toModel.unpack = .finite sign mantissa exponent pos) :
    (RoundingInterval.mk mantissa exponent).Canonical := by
  simp only [Float.Model.unpack, UnpackedFloat.unpack] at h
  split at h
  · split at h <;> cases h
  · split at h
    · -- A subnormal number has the lowest exponent.
      rename_i hzero
      split at h
      · cases h
      · injection h with _ hmantissa hexponent
        subst hmantissa hexponent
        have hlt := (@unpackMantissa Format.binary64 x.toModel.toBits.toBitVec).isLt
        refine ⟨pos, Nat.lt_trans hlt (by decide), ?_, .inr ?_⟩
        · simp [hzero, Format.exponentBias]
        · simp [hzero, Format.exponentBias]
    · -- A normal number has the implicit bit.
      rename_i hnonzero
      injection h with _ hmantissa hexponent
      subst hmantissa hexponent
      have hpos : 0 < (@unpackExponent Format.binary64 x.toModel.toBits.toBitVec).toNat := by
        rw [Nat.pos_iff_ne_zero]
        exact fun hzero => hnonzero (BitVec.eq_of_toNat_eq hzero)
      refine ⟨pos, BitVec.isLt _, ?_, .inl ?_⟩
      · simp only [Format.exponentBias]
        omega
      · show 2 ^ 52 ≤ (1#1 ++ @unpackMantissa Format.binary64 x.toModel.toBits.toBitVec).toNat
        rw [BitVec.toNat_append]
        exact Nat.left_le_or

theorem isNaN_eq_false_iff {x : Float} : x.isNaN = false ↔ x.toModel.unpack ≠ .notANumber := by
  show x.toModel.unpack.isNaN = false ↔ _
  rw [← Bool.not_eq_true, UnpackedFloat.isNaN_iff]

theorem isNaN_eq_false_of_beq {x y : Float} (h : (x == y) = true) :
    x.isNaN = false ∧ y.isNaN = false := by
  have hparts : x.toModel.unpack.beq y.toModel.unpack = true := h
  rw [beq_iff_ne_notANumber_and_eq] at hparts
  obtain ⟨hu, hv, -⟩ := hparts
  exact ⟨isNaN_eq_false_iff.mpr hu, isNaN_eq_false_iff.mpr hv⟩

/-- Doubles are equal when they have the same parts, and zeros whatever their signs. -/
theorem beq_iff_unpack {x y : Float} (hx : x.isNaN = false) (hy : y.isNaN = false) :
    (x == y) = true ↔ x.toModel.unpack = y.toModel.unpack ∨
      ∃ sign sign', x.toModel.unpack = .zero sign ∧ y.toModel.unpack = .zero sign' := by
  rw [isNaN_eq_false_iff] at hx hy
  show x.toModel.unpack.beq y.toModel.unpack = true ↔ _
  rw [beq_iff_ne_notANumber_and_eq]
  constructor
  · rintro ⟨-, -, h | ⟨hu, hv⟩ | ⟨hu, hv⟩⟩
    · exact .inl h
    · exact .inr ⟨_, _, hu, hv⟩
    · exact .inr ⟨_, _, hu, hv⟩
  · rintro (h | ⟨sign, sign', hu, hv⟩)
    · exact ⟨hx, hy, .inl h⟩
    · cases sign <;> cases sign' <;> simp [hu, hv]

theorem beq_of_unpack {x y : Float} {u v : UnpackedFloat} (hu : x.toModel.unpack = u)
    (hv : y.toModel.unpack = v) (hnumbers : u ≠ .notANumber ∧ v ≠ .notANumber)
    (h : u = v ∨ ∃ sign sign', u = .zero sign ∧ v = .zero sign') : (x == y) = true := by
  rw [← hu, ← hv] at hnumbers h
  exact (beq_iff_unpack (isNaN_eq_false_iff.mpr hnumbers.1)
    (isNaN_eq_false_iff.mpr hnumbers.2)).mpr h

/-! ## The number a double stands for -/

/-- The number as a fraction. -/
def BinaryNumber.value (b : BinaryNumber) : ℚ :=
  (if b.negative then -(b.mantissa : ℚ) else b.mantissa) * 2 ^ b.exponent

/-- Two doubles stand for the same number: both are finite with the same exact value, or both are
    the same infinity. -/
inductive SameNumber (x y : Float) : Prop
  | finite {b c : BinaryNumber} (hx : BinaryNumber.ofFloat? x = some b)
      (hy : BinaryNumber.ofFloat? y = some c) (value : b.value = c.value)
  | infinite {sign : Sign} (hx : x.toModel.unpack = .infinity sign)
      (hy : y.toModel.unpack = .infinity sign)

theorem RoundingInterval.eq_of_value_eq {r r' : RoundingInterval} (h : r.Canonical)
    (h' : r'.Canonical)
    (hvalue : (r.mantissa : ℚ) * 2 ^ r.exponent = r'.mantissa * 2 ^ r'.exponent) : r = r' := by
  have hcovers := covers_exact h.pos
  rw [value_exact, hvalue, ← value_exact] at hcovers
  exact eq_of_covers h h' hcovers (covers_exact h'.pos)

namespace BinaryNumber

theorem ofFloat?_of_zero {x : Float} {sign : Sign} (h : x.toModel.unpack = .zero sign) :
    ofFloat? x = some ⟨sign == .negative, 0, 0⟩ := by
  unfold ofFloat?
  rw [h]

theorem ofFloat?_of_finite {x : Float} {sign : Sign} {mantissa : Nat} {exponent : Int}
    {pos : 0 < mantissa} (h : x.toModel.unpack = .finite sign mantissa exponent pos) :
    ofFloat? x = some ⟨sign == .negative, mantissa, exponent⟩ := by
  unfold ofFloat?
  rw [h]

theorem eq_of_ofFloat? {x : Float} {b : BinaryNumber} (h : ofFloat? x = some b) :
    (∃ sign, x.toModel.unpack = .zero sign ∧ b = ⟨sign == .negative, 0, 0⟩) ∨
      ∃ sign mantissa exponent pos, x.toModel.unpack = .finite sign mantissa exponent pos ∧
        b = ⟨sign == .negative, mantissa, exponent⟩ := by
  unfold ofFloat? at h
  split at h <;> cases h
  · exact .inr ⟨_, _, _, _, ‹_›, rfl⟩
  · exact .inl ⟨_, ‹_›, rfl⟩

@[simp] theorem value_zero (negative : Bool) : value ⟨negative, 0, 0⟩ = 0 := by
  simp [value]

theorem value_negative (mantissa : Nat) (exponent : Int) :
    value ⟨Sign.negative == .negative, mantissa, exponent⟩ = -(mantissa * 2 ^ exponent) := by
  exact neg_mul _ _

theorem value_positive (mantissa : Nat) (exponent : Int) :
    value ⟨Sign.positive == .negative, mantissa, exponent⟩ = mantissa * 2 ^ exponent :=
  rfl

theorem value_finite_ne_zero {mantissa : Nat} (pos : 0 < mantissa) (sign : Sign)
    (exponent : Int) : value ⟨sign == .negative, mantissa, exponent⟩ ≠ 0 := by
  have hmagnitude : (0 : ℚ) < mantissa * 2 ^ exponent := by positivity
  cases sign with
  | negative => rw [value_negative]; exact neg_ne_zero.mpr hmagnitude.ne'
  | positive => rw [value_positive]; exact hmagnitude.ne'

/-- A number other than zero has one sign, and one mantissa and exponent in normal form. -/
theorem eq_of_value_eq {sign sign' : Sign} {mantissa mantissa' : Nat} {exponent exponent' : Int}
    (h : (RoundingInterval.mk mantissa exponent).Canonical)
    (h' : (RoundingInterval.mk mantissa' exponent').Canonical)
    (hvalue : value ⟨sign == .negative, mantissa, exponent⟩ =
      value ⟨sign' == .negative, mantissa', exponent'⟩) :
    sign = sign' ∧ mantissa = mantissa' ∧ exponent = exponent' := by
  have hpos : (0 : ℚ) < mantissa * 2 ^ exponent := mul_pos (by exact_mod_cast h.pos) (by positivity)
  have hpos' : (0 : ℚ) < mantissa' * 2 ^ exponent' :=
    mul_pos (by exact_mod_cast h'.pos) (by positivity)
  have hparts (heq : (mantissa : ℚ) * 2 ^ exponent = mantissa' * 2 ^ exponent') :
      mantissa = mantissa' ∧ exponent = exponent' := by
    cases RoundingInterval.eq_of_value_eq h h' heq
    exact ⟨rfl, rfl⟩
  cases sign <;> cases sign' <;> simp only [value_negative, value_positive] at hvalue
  · exact ⟨rfl, hparts (neg_inj.mp hvalue)⟩
  · linarith
  · linarith
  · exact ⟨rfl, hparts hvalue⟩

end BinaryNumber

open BinaryNumber

/-- Doubles are equal exactly when they stand for the same number. -/
theorem beq_iff_sameNumber {x y : Float} : (x == y) = true ↔ SameNumber x y := by
  constructor
  · intro h
    obtain ⟨hx, hy⟩ := isNaN_eq_false_of_beq h
    rcases (beq_iff_unpack hx hy).mp h with hparts | ⟨sign, sign', hu, hv⟩
    · cases hu : x.toModel.unpack with
      | notANumber => exact absurd hu (isNaN_eq_false_iff.mp hx)
      | infinity sign => exact .infinite hu (hparts.symm.trans hu)
      | zero sign =>
        exact .finite (ofFloat?_of_zero hu) (ofFloat?_of_zero (hparts.symm.trans hu)) rfl
      | finite sign mantissa exponent pos =>
        exact .finite (ofFloat?_of_finite hu) (ofFloat?_of_finite (hparts.symm.trans hu)) rfl
    · exact .finite (ofFloat?_of_zero hu) (ofFloat?_of_zero hv) (by rw [value_zero, value_zero])
  · rintro (⟨hx, hy, hvalue⟩ | ⟨hu, hv⟩)
    · rcases eq_of_ofFloat? hx with ⟨sign, hu, rfl⟩ | ⟨sign, m, e, pos, hu, rfl⟩ <;>
        rcases eq_of_ofFloat? hy with ⟨sign', hv, rfl⟩ | ⟨sign', m', e', pos', hv, rfl⟩
      · exact beq_of_unpack hu hv (by simp) (.inr ⟨sign, sign', rfl, rfl⟩)
      · rw [value_zero] at hvalue
        exact absurd hvalue.symm (value_finite_ne_zero pos' sign' e')
      · rw [value_zero] at hvalue
        exact absurd hvalue (value_finite_ne_zero pos sign e)
      · obtain ⟨rfl, rfl, rfl⟩ :=
          eq_of_value_eq (canonical_of_unpack hu) (canonical_of_unpack hv) hvalue
        exact beq_of_unpack hu hv (by simp) (.inl rfl)
    · exact beq_of_unpack hu hv (by simp) (.inl rfl)

example : SameNumber (-0.0) 0.0 := beq_iff_sameNumber.mp (by decide)

end TaggedEval
