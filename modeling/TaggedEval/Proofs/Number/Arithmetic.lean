import Mathlib
import TaggedEval.Proofs.Number.Rounding

/-!
# Sums, differences and products of doubles

Each operation computes the exact result and rounds it. Up to `2 ^ 53` nothing representable is
passed on the way (`Denotes.add`, `Denotes.sub`, `Denotes.mul`), so a result that is representable
is exact: an integer (`Denotes.add_integer` and its like), or what is left of a number from `1 / 2`
on after `1` is taken away (`Representable.sub_one`).
-/

namespace TaggedEval

open Float.Model Float.Model.UnpackedFloat

/-! ## Sums and differences -/

theorem apply_neg (sign : Sign) (n : Int) : (-sign).apply n = -sign.apply n := by
  cases sign
  · exact (neg_neg n).symm
  · rfl

/-- Two numbers can be written with the lower one of their exponents. -/
theorem decreaseExponent_value (sign : Sign) (m : Nat) {e t : Int} (h : t ≤ e) :
    (sign.apply (decreaseExponent m e t).1 : ℚ) * 2 ^ t = sign.apply m * 2 ^ e := by
  have hvalue := shiftLeft_value m (e - t).toNat e
  rw [Int.toNat_of_nonneg (by omega), sub_sub_cancel] at hvalue
  cases sign with
  | negative =>
    simp only [Sign.apply, Int.cast_neg, neg_mul]
    exact congrArg Neg.neg hvalue
  | positive => exact hvalue

theorem exists_exactParts_add {u v : UnpackedFloat} {p q : ℚ} (hu : ExactParts u p)
    (hv : ExactParts v q) (h : |p + q| ≤ 2 ^ 53) :
    ∃ r, ExactParts (UnpackedFloat.add Format.binary64 u v) r ∧ Adjacent (p + q) r := by
  cases hu with
  | zero sign =>
    rw [zero_add]
    cases hv with
    | zero sign' =>
      refine ⟨0, ?_, .refl 0⟩
      simp only [UnpackedFloat.add]
      split <;> exact .zero _
    | finite sign' pos canonical le => exact ⟨_, .finite sign' pos canonical le, .refl _⟩
  | @finite sign m e pos canonical le =>
    cases hv with
    | zero sign' =>
      rw [add_zero]
      exact ⟨_, .finite sign pos canonical le, .refl _⟩
    | @finite sign' m' e' pos' canonical' le' =>
      have hvalue := decreaseExponent_value sign m (min_le_left e e')
      have hvalue' := decreaseExponent_value sign' m' (min_le_right e e')
      rw [← hvalue, ← hvalue', ← add_mul, ← Int.cast_add] at h ⊢
      exact exists_exactParts_normalize _ _ .positive h

theorem ExactParts.neg {u : UnpackedFloat} {q : ℚ} (h : ExactParts u q) : ExactParts u.neg (-q) := by
  cases h with
  | zero sign =>
    rw [neg_zero]
    exact .zero (-sign)
  | finite sign pos canonical le =>
    rw [← neg_mul, ← Int.cast_neg, ← apply_neg]
    exact .finite (-sign) pos canonical le

theorem sub_eq_add_neg_parts (spec : Format) (u v : UnpackedFloat) :
    UnpackedFloat.sub spec u v = UnpackedFloat.add spec u v.neg := by
  cases u <;> cases v <;>
    simp [UnpackedFloat.sub, UnpackedFloat.add, UnpackedFloat.neg, apply_neg, sub_eq_add_neg]

/-! ## Products -/

theorem apply_mul (sign sign' : Sign) (m n : Int) :
    (sign * sign').apply (m * n) = sign.apply m * sign'.apply n := by
  cases sign <;> cases sign'
  · exact (neg_mul_neg m n).symm
  · exact (neg_mul m n).symm
  · exact (mul_neg m n).symm
  · rfl

/-- The product of two mantissas has all bits that are kept, or its exponent is far too low. -/
theorem exponent_le_lastBit_mul {m m' : Nat} {e e' : Int}
    (h : (RoundingInterval.mk m e).Canonical) (h' : (RoundingInterval.mk m' e').Canonical) :
    e + e' ≤ lastBit (m * m') (e + e') := by
  have hlog (hfull : 2 ^ 52 ≤ m * m') : e + e' ≤ lastBit (m * m') (e + e') := by
    have hbits : 52 ≤ (m * m').log2 := (Nat.le_log2 (Nat.mul_pos h.pos h'.pos).ne').mpr hfull
    unfold lastBit
    omega
  rcases h.full with hfull | (hlowest : e = -1074)
  · exact hlog (hfull.trans (Nat.le_mul_of_pos_right m h'.pos))
  · rcases h'.full with hfull' | (hlowest' : e' = -1074)
    · exact hlog (hfull'.trans (Nat.le_mul_of_pos_left m' h.pos))
    · have hle := lowest_le_lastBit (m * m') (e + e')
      omega

theorem exists_exactParts_mul {u v : UnpackedFloat} {p q : ℚ} (hu : ExactParts u p)
    (hv : ExactParts v q) (h : |p * q| ≤ 2 ^ 53) :
    ∃ r, ExactParts (UnpackedFloat.mul Format.binary64 u v) r ∧ Adjacent (p * q) r := by
  cases hu with
  | zero sign =>
    rw [zero_mul]
    cases hv with
    | zero sign' => exact ⟨0, .zero _, .refl 0⟩
    | finite sign' pos canonical le => exact ⟨0, .zero _, .refl 0⟩
  | @finite sign m e pos canonical le =>
    cases hv with
    | zero sign' =>
      rw [mul_zero]
      exact ⟨0, .zero _, .refl 0⟩
    | @finite sign' m' e' pos' canonical' le' =>
      have hpos : 0 < m * m' := Nat.mul_pos pos pos'
      have hmul : ((sign * sign').apply (m * m' : ℕ) * 2 ^ (e + e') : ℚ) =
          sign.apply m * 2 ^ e * (sign'.apply m' * 2 ^ e') := by
        rw [zpow_add₀ (by norm_num), Nat.cast_mul, apply_mul]
        push_cast
        ring
      have hle : ((m * m' : ℕ) : ℚ) * 2 ^ (e + e') ≤ 2 ^ 53 := by
        rw [abs_mul, abs_apply sign canonical, abs_apply sign' canonical'] at h
        rw [zpow_add₀ (by norm_num), Nat.cast_mul, mul_mul_mul_comm]
        exact h
      obtain ⟨n, hrounds, hround⟩ :=
        exists_roundWithAccuracy (sign * sign') hpos (exponent_le_lastBit_mul canonical canonical')
      have hcarry := exists_exactParts_carry (sign * sign') hpos hle hrounds
      rwa [← hround, hmul] at hcarry

/-! ## Operations on doubles -/

namespace Denotes

variable {x y : Float} {p q : ℚ}

theorem add (hx : Denotes x p) (hy : Denotes y q) (h : |p + q| ≤ 2 ^ 53) :
    ∃ r, Denotes (x + y) r ∧ Adjacent (p + q) r := by
  obtain ⟨r, hparts, hadjacent⟩ :=
    exists_exactParts_add (denotes_iff_exactParts.mp hx) (denotes_iff_exactParts.mp hy) h
  exact ⟨r, hparts.denotes, hadjacent⟩

theorem sub (hx : Denotes x p) (hy : Denotes y q) (h : |p - q| ≤ 2 ^ 53) :
    ∃ r, Denotes (x - y) r ∧ Adjacent (p - q) r := by
  rw [sub_eq_add_neg] at h ⊢
  obtain ⟨r, hparts, hadjacent⟩ :=
    exists_exactParts_add (denotes_iff_exactParts.mp hx) (denotes_iff_exactParts.mp hy).neg h
  rw [← sub_eq_add_neg_parts] at hparts
  exact ⟨r, hparts.denotes, hadjacent⟩

theorem mul (hx : Denotes x p) (hy : Denotes y q) (h : |p * q| ≤ 2 ^ 53) :
    ∃ r, Denotes (x * y) r ∧ Adjacent (p * q) r := by
  obtain ⟨r, hparts, hadjacent⟩ :=
    exists_exactParts_mul (denotes_iff_exactParts.mp hx) (denotes_iff_exactParts.mp hy) h
  exact ⟨r, hparts.denotes, hadjacent⟩

/-! ## Integers -/

/-- An integer difference up to `2 ^ 53` is exact. -/
theorem sub_integer (hx : Denotes x p) (hy : Denotes y q) {z : ℤ} (hz : p - q = z)
    (h : |z| ≤ 2 ^ 53) : Denotes (x - y) z := by
  have habs : |p - q| ≤ 2 ^ 53 := by
    rw [hz]
    exact_mod_cast h
  obtain ⟨r, hr, hadjacent⟩ := hx.sub hy habs
  rw [hz] at hadjacent
  rwa [hadjacent.eq (representable_intCast h)] at hr

variable {a b : ℤ}

/-- An integer sum up to `2 ^ 53` is exact. -/
theorem add_integer (hx : Denotes x a) (hy : Denotes y b) (h : |a + b| ≤ 2 ^ 53) :
    Denotes (x + y) ↑(a + b) := by
  obtain ⟨r, hr, hadjacent⟩ := hx.add hy (by exact_mod_cast h)
  rw [← Int.cast_add] at hadjacent
  rwa [hadjacent.eq (representable_intCast h)] at hr

/-- An integer product up to `2 ^ 53` is exact. -/
theorem mul_integer (hx : Denotes x a) (hy : Denotes y b) (h : |a * b| ≤ 2 ^ 53) :
    Denotes (x * y) ↑(a * b) := by
  obtain ⟨r, hr, hadjacent⟩ := hx.mul hy (by exact_mod_cast h)
  rw [← Int.cast_mul] at hadjacent
  rwa [hadjacent.eq (representable_intCast h)] at hr

end Denotes

/-! ## One less -/

theorem Denotes.representable {x : Float} {q : ℚ} (h : Denotes x q) : Representable q := by
  have hparts := denotes_iff_exactParts.mp h
  generalize x.toModel.unpack = u at hparts
  cases hparts with
  | zero sign => exact ⟨0, 0, by norm_num, by norm_num, by norm_num⟩
  | @finite sign m e pos canonical le =>
    refine ⟨sign.apply m, e, ?_, canonical.lowest, rfl⟩
    have hlt : (m : ℤ) < 2 ^ 53 := by exact_mod_cast canonical.lt
    cases sign <;> simpa [Sign.apply] using hlt

/-- From `1 / 2` on no bit is added by taking `1` away. -/
theorem Representable.sub_one {q : ℚ} (h : Representable q) (hhalf : 1 / 2 ≤ q)
    (hle : q ≤ 2 ^ 53) : Representable (q - 1) := by
  obtain ⟨k, t, hk, ht, rfl⟩ := h
  rcases le_or_gt t 0 with hsmall | hlarge
  · have hpow : (0 : ℚ) < 2 ^ t := by positivity
    have hone : (1 : ℚ) = ((2 ^ (-t).toNat : ℕ) : ℚ) * 2 ^ t := by
      rw [two_pow_mul, Int.toNat_of_nonneg (by omega), neg_add_cancel, zpow_zero]
    have hunits : ((2 ^ (-t).toNat : ℕ) : ℤ) ≤ 2 * k := by
      have hge : ((2 ^ (-t).toNat : ℕ) : ℚ) * 2 ^ t ≤ 2 * k * 2 ^ t := by linarith
      exact_mod_cast le_of_mul_le_mul_right hge hpow
    have hpos : (0 : ℤ) < (2 ^ (-t).toNat : ℕ) := by positivity
    refine ⟨k - (2 ^ (-t).toNat : ℕ), t, ?_, ht, ?_⟩
    · rw [abs_lt] at hk ⊢
      omega
    · rw [Int.cast_sub, sub_mul, Int.cast_natCast, ← hone]
  · have hinteger : (k : ℚ) * 2 ^ t - 1 = ((k * 2 ^ t.toNat - 1 : ℤ) : ℚ) := by
      push_cast
      rw [← zpow_natCast, Int.toNat_of_nonneg hlarge.le]
    have habs : |(k : ℚ) * 2 ^ t - 1| ≤ 2 ^ 53 := abs_le.mpr ⟨by linarith, by linarith⟩
    rw [hinteger] at habs ⊢
    exact representable_intCast (by exact_mod_cast habs)

/-- Taking `1` away lowers the floor by one, unless the number is below `1`; then the difference is
    negative. -/
theorem Denotes.floor_sub_one {x one : Float} {q : ℚ} (hx : Denotes x q) (hone : Denotes one 1)
    (hnonneg : 0 ≤ q) (hle : q ≤ 2 ^ 53) :
    ∃ next, Denotes (x - one) next ∧ next ≤ q ∧ max 0 (⌊next⌋ + 1) = ⌊q⌋ := by
  obtain ⟨next, hnext, hadjacent⟩ :=
    hx.sub hone (abs_le.mpr ⟨by linarith, by linarith⟩ : |q - 1| ≤ 2 ^ 53)
  refine ⟨next, hnext, ?_⟩
  rcases le_or_gt (1 / 2) q with hhalf | hsmall
  · obtain rfl := hadjacent.eq (hx.representable.sub_one hhalf hle)
    have hfloor : 0 ≤ ⌊q⌋ := Int.floor_nonneg.mpr hnonneg
    rw [Int.floor_sub_one, sub_add_cancel, max_eq_right hfloor]
    exact ⟨by linarith, rfl⟩
  · -- The difference is below `-1 / 2`, and so is what it is rounded to.
    have hhalf : Representable (-(1 / 2)) := ⟨-1, -1, by norm_num, by norm_num, by norm_num⟩
    have hneg : next ≤ -(1 / 2) := hadjacent.le_of_ge _ hhalf (by linarith)
    have hfloor : ⌊q⌋ = 0 := Int.floor_eq_zero_iff.mpr ⟨hnonneg, by linarith⟩
    have hnegative : ⌊next⌋ < 0 := Int.floor_lt.mpr (by push_cast; linarith)
    rw [hfloor]
    exact ⟨by linarith, max_eq_left (by omega)⟩

end TaggedEval
