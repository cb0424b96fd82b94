import Mathlib
import TaggedEval.Proofs.Number.Exact

/-!
# Rounding

A number is rounded by dropping the bits below the last one that is kept, and what is left is a
multiple of that bit which no other multiple separates from the number (`RoundsTo`). A number with
few enough bits is a multiple of that bit as well or too small to matter, so nothing representable
lies strictly between a number and what it is rounded to (`RoundsTo.adjacent`). Up to `2 ^ 53` every
integer is representable.
-/

namespace TaggedEval

open Float.Model Float.Model.UnpackedFloat

/-! ## Dropping bits -/

theorem mantissa_shiftRight (em : ExtendedMantissa) (k : Nat) :
    (em >>> k).mantissa = em.mantissa / 2 ^ k := by
  induction k with
  | zero => exact (Nat.div_one _).symm
  | succ k ih =>
    show (em >>> k).mantissa / 2 = _
    rw [ih, Nat.div_div_eq_div_mul, Nat.pow_succ]

/-- As long as no bit that is set is dropped, the residual bits stay clear. -/
theorem shiftRight_of_dvd {m k : Nat} (h : 2 ^ k ∣ m) :
    ExtendedMantissa.mk m false false >>> k = ⟨m / 2 ^ k, false, false⟩ := by
  induction k with
  | zero => simp [HShiftRight.hShiftRight, Nat.repeat]
  | succ k ih =>
    rw [Nat.pow_succ] at h
    have heven : m / 2 ^ k % 2 = 0 :=
      Nat.mod_eq_zero_of_dvd (Nat.dvd_div_of_mul_dvd h)
    show (ExtendedMantissa.mk m false false >>> k).shiftRightOne = _
    rw [ih (Dvd.dvd.trans (Nat.dvd_mul_right _ _) h), ExtendedMantissa.shiftRightOne, heven,
      Nat.div_div_eq_div_mul, Nat.pow_succ]
    rfl

theorem roundedMantissa_bounds (em : ExtendedMantissa) :
    em.mantissa ≤ em.roundedMantissa ∧ em.roundedMantissa ≤ em.mantissa + 1 := by
  unfold ExtendedMantissa.roundedMantissa
  cases em.accuracy with
  | exact => exact ⟨Nat.le_refl _, Nat.le_succ _⟩
  | inexact o =>
    cases o <;> simp only [Accuracy.roundToNearestEven] <;> omega

/-- The quantity is rounded to a multiple of the unit `2 ^ unit` that is not separated from it by
    another one. -/
structure RoundsTo (q : ℚ) (unit : ℤ) (n : ℕ) : Prop where
  le_of_le : ∀ k : ℕ, k * 2 ^ unit ≤ q → k ≤ n
  le_of_ge : ∀ k : ℕ, q ≤ k * 2 ^ unit → n ≤ k

theorem roundsTo_shiftRight (m k : Nat) (e : Int) :
    RoundsTo (m * 2 ^ e) (e + k) (ExtendedMantissa.mk m false false >>> k).roundedMantissa := by
  have hunit (j : ℕ) : (j : ℚ) * 2 ^ (e + k) = (j * 2 ^ k : ℕ) * 2 ^ e := by
    rw [zpow_add₀ (by norm_num), zpow_natCast]
    push_cast
    ring
  have hpos : (0 : ℚ) < 2 ^ e := by positivity
  have hbounds := roundedMantissa_bounds (ExtendedMantissa.mk m false false >>> k)
  rw [mantissa_shiftRight] at hbounds
  have hle (j : ℕ) (h : j * 2 ^ k ≤ m) : j ≤ m / 2 ^ k :=
    (Nat.le_div_iff_mul_le (Nat.two_pow_pos k)).mpr h
  constructor
  · intro j h
    rw [hunit, mul_le_mul_iff_left₀ hpos, Nat.cast_le] at h
    exact (hle j h).trans hbounds.1
  · intro j h
    rw [hunit, mul_le_mul_iff_left₀ hpos, Nat.cast_le] at h
    by_cases hlt : m / 2 ^ k < j
    · exact hbounds.2.trans hlt
    · have heq : m = j * 2 ^ k :=
        le_antisymm h ((Nat.le_div_iff_mul_le (Nat.two_pow_pos k)).mp (not_lt.mp hlt))
      rw [shiftRight_of_dvd ⟨j, heq.trans (Nat.mul_comm _ _)⟩]
      show m / 2 ^ k ≤ j
      rw [heq, Nat.mul_div_cancel _ (Nat.two_pow_pos k)]

/-! ## The last bit that is kept -/

/-- The exponent of the last bit that a double keeps of this number. -/
def lastBit (m : Nat) (e : Int) : Int :=
  max (m.log2 + e - 52) (-1074)

theorem lowest_le_lastBit (m : Nat) (e : Int) : -1074 ≤ lastBit m e :=
  le_max_right _ _

theorem targetExponent_eq (m : Nat) (e : Int) :
    Format.binary64.targetExponent (totalExponent m e) = lastBit m e := by
  simp only [Format.targetExponent, totalExponent, Format.mantissaBits, Format.minExponent,
    lastBit]
  norm_num
  omega

theorem log2_shiftLeft {m : Nat} (pos : 0 < m) (k : Nat) : (m <<< k).log2 = m.log2 + k := by
  induction k with
  | zero => rfl
  | succ k ih =>
    have hpos : m <<< k ≠ 0 := by
      rw [Nat.shiftLeft_eq]
      positivity
    rw [Nat.shiftLeft_succ, Nat.log2_two_mul hpos, ih, Nat.add_assoc]

theorem lastBit_shiftLeft {m : Nat} (pos : 0 < m) (k : Nat) (e : Int) :
    lastBit (m <<< k) (e - k) = lastBit m e := by
  rw [lastBit, lastBit, log2_shiftLeft pos]
  push_cast
  congr 1
  ring

theorem two_pow_log2_le {m : Nat} (pos : 0 < m) (e : Int) :
    (2 : ℚ) ^ (m.log2 + e) ≤ m * 2 ^ e := by
  rw [zpow_add₀ (by norm_num), zpow_natCast]
  have hle : (2 : ℚ) ^ m.log2 ≤ m := by exact_mod_cast Nat.log2_self_le pos.ne'
  exact mul_le_mul_of_nonneg_right hle (by positivity)

theorem lt_two_pow_log2 (m : Nat) (e : Int) : m * (2 : ℚ) ^ e < 2 ^ (m.log2 + 1 + e) := by
  rw [zpow_add₀ (by norm_num)]
  have hlt : (m : ℚ) < 2 ^ (m.log2 + 1 : ℤ) := by exact_mod_cast Nat.lt_log2_self
  exact mul_lt_mul_of_pos_right hlt (by positivity)

theorem two_pow_mul (k : Nat) (t : Int) : ((2 ^ k : ℕ) : ℚ) * 2 ^ t = 2 ^ (k + t) := by
  rw [Nat.cast_pow, Nat.cast_ofNat, ← zpow_natCast, ← zpow_add₀ (by norm_num)]

/-- At most 53 bits are kept, and exactly 53 unless the last one is the lowest of all. -/
theorem RoundsTo.bounds {m n : Nat} (pos : 0 < m) {e : Int}
    (h : RoundsTo (m * 2 ^ e) (lastBit m e) n) :
    n ≤ 2 ^ 53 ∧ (2 ^ 52 ≤ n ∨ lastBit m e = -1074) := by
  constructor
  · apply h.le_of_ge
    rw [two_pow_mul]
    refine (lt_two_pow_log2 m e).le.trans (zpow_le_zpow_right₀ (by norm_num) ?_)
    have := le_max_left (m.log2 + e - 52) (-1074)
    unfold lastBit
    omega
  · rw [or_iff_not_imp_right]
    intro hlowest
    apply h.le_of_le
    rw [two_pow_mul]
    refine le_trans (zpow_le_zpow_right₀ (by norm_num) ?_) (two_pow_log2_le pos e)
    unfold lastBit at hlowest ⊢
    omega

/-! ## Rounding -/

/-- The parts of `n` times `2 ^ t`. If `n` was rounded up to the next power of two, its last bit is
    clear and is dropped. -/
def carry (sign : Sign) (n : Nat) (t : Int) : UnpackedFloat :=
  if h : n = 0 then .zero sign
  else if n < 2 ^ 53 then .finite sign n t (Nat.pos_of_ne_zero h)
  else .finite sign (2 ^ 52) (t + 1) (by decide)

theorem exactParts_carry (sign : Sign) {n : Nat} {t : Int} (hn : n ≤ 2 ^ 53)
    (hfull : 2 ^ 52 ≤ n ∨ t = -1074) (hlowest : -1074 ≤ t) (ht : t ≤ 970) :
    ExactParts (carry sign n t) (sign.apply n * 2 ^ t) := by
  unfold carry
  split
  · rename_i hzero
    have hvalue : (sign.apply n * 2 ^ t : ℚ) = 0 := by
      cases sign <;> simp [Sign.apply, hzero]
    rw [hvalue]
    exact .zero sign
  · rename_i hpos
    split
    · rename_i hlt
      exact .finite sign _ ⟨Nat.pos_of_ne_zero hpos, hlt, hlowest, hfull⟩ (by omega)
    · obtain rfl : n = 2 ^ 53 := by omega
      have hvalue : (sign.apply (2 ^ 53 : ℕ) * 2 ^ t : ℚ) =
          sign.apply (2 ^ 52 : ℕ) * 2 ^ (t + 1) := by
        rw [zpow_add_one₀ (by norm_num)]
        cases sign <;> norm_num [Sign.apply] <;> ring
      rw [hvalue]
      exact .finite sign _
        ⟨Nat.two_pow_pos 52, by norm_num, by dsimp only; omega, .inl le_rfl⟩ (by omega)

theorem shiftToTargetExponent_eq (m : Nat) (e : Int) :
    shiftToTargetExponent Format.binary64 m e .exact =
      (ExtendedMantissa.mk m false false >>> (lastBit m e - e).toNat,
        e + (lastBit m e - e).toNat) := by
  rw [shiftToTargetExponent, targetExponent_eq]
  rfl

/-- The second shift of a rounding drops a bit only if the mantissa was rounded up to `2 ^ 53`. -/
theorem shiftToTargetExponent_rounded {n : Nat} {t : Int} (hn : n ≤ 2 ^ 53)
    (hlowest : -1074 ≤ t) :
    shiftToTargetExponent Format.binary64 n t .exact =
      if n < 2 ^ 53 then (⟨n, false, false⟩, t) else (⟨2 ^ 52, false, false⟩, t + 1) := by
  rw [shiftToTargetExponent_eq]
  split
  · rename_i hlt
    have hlog : n.log2 ≤ 52 := by
      by_cases hzero : n = 0
      · rw [hzero]
        decide
      · have := (Nat.log2_lt hzero).mpr hlt
        omega
    have hshift : (lastBit n t - t).toNat = 0 := by
      unfold lastBit
      omega
    rw [hshift, Nat.cast_zero, add_zero]
    rfl
  · obtain rfl : n = 2 ^ 53 := by omega
    have hshift : (lastBit (2 ^ 53) t - t).toNat = 1 := by
      rw [lastBit, Nat.log2_two_pow]
      omega
    rw [hshift]
    rfl

theorem roundWithAccuracy_eq (sign : Sign) {m n : Nat} {e t : Int} (hn : n ≤ 2 ^ 53)
    (hlowest : -1074 ≤ t) (ht : (shiftToTargetExponent Format.binary64 m e .exact).2 = t)
    (hrounded : (shiftToTargetExponent Format.binary64 m e .exact).1.roundedMantissa = n) :
    roundWithAccuracy Format.binary64 sign m e .exact = carry sign n t := by
  unfold roundWithAccuracy carry
  simp only [hrounded, ht, shiftToTargetExponent_rounded hn hlowest]
  by_cases hlt : n < 2 ^ 53
  · simp only [if_pos hlt]
  · have hpos : n ≠ 0 := by omega
    simp only [if_neg hlt, dif_neg hpos]
    rfl

/-- Bits that are added below the last one do not change the number. -/
theorem shiftLeft_value (m k : Nat) (e : Int) :
    ((m <<< k : ℕ) : ℚ) * 2 ^ (e - k) = m * 2 ^ e := by
  rw [Nat.shiftLeft_eq]
  push_cast
  rw [mul_assoc, ← zpow_natCast, ← zpow_add₀ (by norm_num), add_sub_cancel]

/-- A number that has bits at and below its last one is rounded by dropping those below. -/
theorem exists_roundWithAccuracy (sign : Sign) {m : Nat} (pos : 0 < m) {e : Int}
    (h : e ≤ lastBit m e) :
    ∃ n, RoundsTo (m * 2 ^ e) (lastBit m e) n ∧
      roundWithAccuracy Format.binary64 sign m e .exact = carry sign n (lastBit m e) := by
  have hshift := shiftToTargetExponent_eq m e
  have hrounds := roundsTo_shiftRight m (lastBit m e - e).toNat e
  have hdropped : e + (lastBit m e - e).toNat = lastBit m e := by omega
  rw [hdropped] at hshift hrounds
  refine ⟨_, hrounds, ?_⟩
  exact roundWithAccuracy_eq sign (hrounds.bounds pos).1 (lowest_le_lastBit m e)
    (congrArg Prod.snd hshift) (by rw [hshift])

/-- A number is rounded to a multiple of its last bit. -/
theorem exists_round (sign : Sign) {m : Nat} (pos : 0 < m) (e : Int) :
    ∃ n, RoundsTo (m * 2 ^ e) (lastBit m e) n ∧
      UnpackedFloat.round Format.binary64 sign m e = carry sign n (lastBit m e) := by
  -- The bits that are missing are added first, so that what follows drops bits or does nothing.
  obtain ⟨k, hk⟩ : ∃ k, k = (e - lastBit m e).toNat := ⟨_, rfl⟩
  have hlast := lastBit_shiftLeft pos k e
  have hpos : 0 < m <<< k := by
    rw [Nat.shiftLeft_eq]
    positivity
  obtain ⟨n, hrounds, hround⟩ := exists_roundWithAccuracy sign hpos (e := e - k) (by omega)
  rw [hlast, shiftLeft_value] at hrounds
  rw [hlast] at hround
  refine ⟨n, hrounds, ?_⟩
  unfold UnpackedFloat.round
  simp only [targetExponent_eq, decreaseExponent, ← hk]
  exact hround

/-! ## Representable numbers -/

/-- The number has at most 53 bits, and none below the lowest one of all. -/
def Representable (s : ℚ) : Prop :=
  ∃ k t : ℤ, |k| < 2 ^ 53 ∧ -1074 ≤ t ∧ s = k * 2 ^ t

theorem Representable.neg {s : ℚ} (h : Representable s) : Representable (-s) := by
  obtain ⟨k, t, hk, ht, rfl⟩ := h
  refine ⟨-k, t, by rwa [abs_neg], ht, ?_⟩
  rw [Int.cast_neg, neg_mul]

theorem representable_intCast {z : ℤ} (h : |z| ≤ 2 ^ 53) : Representable z := by
  rcases lt_or_eq_of_le h with hlt | heq
  · exact ⟨z, 0, hlt, by norm_num, by rw [zpow_zero, mul_one]⟩
  · have htop : Representable (2 ^ 53 : ℤ) := ⟨2 ^ 52, 1, by norm_num, by norm_num, by norm_num⟩
    rcases eq_or_eq_neg_of_abs_eq heq with rfl | rfl
    · exact htop
    · rw [Int.cast_neg]
      exact htop.neg

/-- A positive number of 53 bits is a multiple of the unit, or below all numbers whose 53 bits end
    there. -/
theorem Representable.multiple_or_lt {s : ℚ} (h : Representable s) (unit : ℤ) :
    s ≤ 0 ∨ (∃ j : ℕ, s = j * 2 ^ unit) ∨ (-1074 < unit ∧ s < 2 ^ (52 + unit)) := by
  obtain ⟨k, t, hk, ht, rfl⟩ := h
  have hpow : (0 : ℚ) < 2 ^ t := by positivity
  rcases le_or_gt k 0 with hneg | hpos
  · exact .inl (mul_nonpos_of_nonpos_of_nonneg (by exact_mod_cast hneg) hpow.le)
  · rw [abs_of_pos hpos] at hk
    have hkt : ((k.toNat : ℕ) : ℚ) = k := by exact_mod_cast Int.toNat_of_nonneg hpos.le
    rcases le_or_gt unit t with hle | hlt
    · refine .inr (.inl ⟨k.toNat * 2 ^ (t - unit).toNat, ?_⟩)
      rw [Nat.cast_mul, mul_assoc, two_pow_mul, hkt, Int.toNat_of_nonneg (by omega),
        sub_add_cancel]
    · refine .inr (.inr ⟨by omega, ?_⟩)
      have hlt53 : (k : ℚ) < 2 ^ 53 := by exact_mod_cast hk
      calc (k : ℚ) * 2 ^ t < 2 ^ 53 * 2 ^ t := mul_lt_mul_of_pos_right hlt53 hpow
        _ = 2 ^ (53 + t) := by rw [zpow_add₀ (by norm_num)]; norm_num
        _ ≤ 2 ^ (52 + unit) := zpow_le_zpow_right₀ (by norm_num) (by omega)

/-- Nothing representable lies strictly between the two numbers. -/
structure Adjacent (q r : ℚ) : Prop where
  le_of_le : ∀ s, Representable s → s ≤ q → s ≤ r
  le_of_ge : ∀ s, Representable s → q ≤ s → r ≤ s

namespace Adjacent

variable {q r : ℚ}

theorem refl (q : ℚ) : Adjacent q q :=
  ⟨fun _ _ h => h, fun _ _ h => h⟩

theorem neg (h : Adjacent q r) : Adjacent (-q) (-r) where
  le_of_le s hs hle := le_neg_of_le_neg (h.le_of_ge (-s) hs.neg (le_neg_of_le_neg hle))
  le_of_ge s hs hge := neg_le_of_neg_le (h.le_of_le (-s) hs.neg (neg_le_of_neg_le hge))

/-- What is representable is next to itself only. -/
theorem eq (h : Adjacent q r) (hq : Representable q) : r = q :=
  le_antisymm (h.le_of_ge q hq le_rfl) (h.le_of_le q hq le_rfl)

/-- Up to `2 ^ 53` no integer is passed. -/
theorem le_ceil (h : Adjacent q r) (hq : |q| ≤ 2 ^ 53) : r ≤ ⌈q⌉ := by
  obtain ⟨hlow, hhigh⟩ := abs_le.mp hq
  refine h.le_of_ge _ (representable_intCast (abs_le.mpr ⟨?_, ?_⟩)) (Int.le_ceil q)
  · exact_mod_cast hlow.trans (Int.le_ceil q)
  · exact Int.ceil_le.mpr (by exact_mod_cast hhigh)

end Adjacent

/-- A number is rounded to one that it is next to. -/
theorem RoundsTo.adjacent {m n : ℕ} (pos : 0 < m) {e : ℤ}
    (h : RoundsTo (m * 2 ^ e) (lastBit m e) n) :
    Adjacent (m * 2 ^ e) (n * 2 ^ lastBit m e) := by
  have hunit : (0 : ℚ) < 2 ^ lastBit m e := by positivity
  -- Above the lowest bit of all, both numbers have all their 53 bits.
  have hfull (hlowest : -1074 < lastBit m e) :
      (2 : ℚ) ^ (52 + lastBit m e) ≤ m * 2 ^ e ∧
        (2 : ℚ) ^ (52 + lastBit m e) ≤ n * 2 ^ lastBit m e := by
    have hn : 2 ^ 52 ≤ n := (h.bounds pos).2.resolve_right hlowest.ne'
    have hlast : 52 + lastBit m e = m.log2 + e := by
      unfold lastBit at hlowest ⊢
      omega
    constructor
    · rw [hlast]
      exact two_pow_log2_le pos e
    · have hpow : (2 : ℚ) ^ (52 + lastBit m e) = ((2 ^ 52 : ℕ) : ℚ) * 2 ^ lastBit m e :=
        (two_pow_mul 52 _).symm
      rw [hpow]
      exact mul_le_mul_of_nonneg_right (by exact_mod_cast hn) hunit.le
  constructor
  · intro s hs hle
    rcases hs.multiple_or_lt (lastBit m e) with hneg | ⟨j, rfl⟩ | ⟨hlowest, hlt⟩
    · exact hneg.trans (by positivity)
    · exact mul_le_mul_of_nonneg_right (by exact_mod_cast h.le_of_le j hle) hunit.le
    · exact hlt.le.trans (hfull hlowest).2
  · intro s hs hge
    rcases hs.multiple_or_lt (lastBit m e) with hneg | ⟨j, rfl⟩ | ⟨hlowest, hlt⟩
    · have hpos : (0 : ℚ) < m * 2 ^ e := mul_pos (by exact_mod_cast pos) (by positivity)
      exact absurd hpos (not_lt_of_ge (hge.trans hneg))
    · exact mul_le_mul_of_nonneg_right (by exact_mod_cast h.le_of_ge j hge) hunit.le
    · exact absurd hlt (not_lt_of_ge ((hfull hlowest).1.trans hge))

/-! ## Numbers up to `2 ^ 53` -/

theorem exists_exactParts_carry (sign : Sign) {m n : Nat} (pos : 0 < m) {e : Int}
    (hle : (m : ℚ) * 2 ^ e ≤ 2 ^ 53) (h : RoundsTo (m * 2 ^ e) (lastBit m e) n) :
    ∃ r, ExactParts (carry sign n (lastBit m e)) r ∧ Adjacent (sign.apply m * 2 ^ e) r := by
  obtain ⟨hn, hfull⟩ := h.bounds pos
  have hlog : (m.log2 : ℤ) + e ≤ 53 :=
    (zpow_le_zpow_iff_right₀ (by norm_num : (1 : ℚ) < 2)).mp
      (by exact_mod_cast (two_pow_log2_le pos e).trans hle)
  have hlast : lastBit m e ≤ 970 := by
    unfold lastBit
    omega
  refine ⟨_, exactParts_carry sign hn hfull (lowest_le_lastBit m e) hlast, ?_⟩
  cases sign with
  | negative =>
    simp only [Sign.apply, Int.cast_neg, neg_mul]
    exact (h.adjacent pos).neg
  | positive => exact h.adjacent pos

theorem exists_exactParts_normalize (z e : Int) (zero : Sign) (h : |(z : ℚ) * 2 ^ e| ≤ 2 ^ 53) :
    ∃ r, ExactParts (UnpackedFloat.normalize Format.binary64 z e zero) r ∧
      Adjacent (z * 2 ^ e) r := by
  have hpow : (0 : ℚ) < 2 ^ e := by positivity
  rw [abs_mul, abs_of_pos hpow] at h
  unfold UnpackedFloat.normalize
  rcases lt_trichotomy z 0 with hlt | rfl | hgt
  · have hm : ((-z).toNat : ℤ) = -z := Int.toNat_of_nonneg (by omega)
    have hz : Sign.negative.apply (-z).toNat = z := by rw [Sign.apply, hm, neg_neg]
    have habs : |(z : ℚ)| = (-z).toNat := by
      rw [abs_of_neg (by exact_mod_cast hlt)]
      exact_mod_cast hm.symm
    have hpos : 0 < (-z).toNat := by omega
    obtain ⟨n, hrounds, hround⟩ := exists_round .negative hpos e
    have hcarry := exists_exactParts_carry .negative hpos (by rwa [← habs]) hrounds
    rw [compare_lt_iff_lt.mpr hlt]
    rwa [← hround, hz] at hcarry
  · rw [compare_eq_iff_eq.mpr rfl, Int.cast_zero, zero_mul]
    exact ⟨0, .zero zero, .refl 0⟩
  · have hm : (z.toNat : ℤ) = z := Int.toNat_of_nonneg hgt.le
    have hz : Sign.positive.apply z.toNat = z := hm
    have habs : |(z : ℚ)| = z.toNat := by
      rw [abs_of_pos (by exact_mod_cast hgt)]
      exact_mod_cast hm.symm
    have hpos : 0 < z.toNat := by omega
    obtain ⟨n, hrounds, hround⟩ := exists_round .positive hpos e
    have hcarry := exists_exactParts_carry .positive hpos (by rwa [← habs]) hrounds
    rw [compare_gt_iff_gt.mpr hgt]
    rwa [← hround, hz] at hcarry

end TaggedEval
