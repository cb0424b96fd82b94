import Mathlib.Tactic.Linarith
import Mathlib.Tactic.Positivity
import TaggedEval.Number.Shortest
import TaggedEval.Proofs.Number.Decimal

/-!
# Rounding intervals

The decimals that round to a positive double lie in an interval around it, with the ends when the
mantissa is even. `Covers` says this of rational numbers; `contains_iff_covers` says that the
integer comparisons of `contains` decide it. The intervals of two doubles have no number in common
(`eq_of_covers`), and the shortest decimal of a double lies in its interval (`covers_shortest`).
-/

namespace TaggedEval

namespace RoundingInterval

variable {r r' : RoundingInterval}

/-- The number rounds to the double. Both are measured in quarters of `2 ^ exponent`. -/
def Covers (r : RoundingInterval) (x : ℚ) : Prop :=
  if r.closed then r.lower ≤ x * 2 ^ (2 - r.exponent) ∧ x * 2 ^ (2 - r.exponent) ≤ r.upper
  else r.lower < x * 2 ^ (2 - r.exponent) ∧ x * 2 ^ (2 - r.exponent) < r.upper

/-! ## Comparing by integers -/

theorem pow_toNat_eq {b : ℚ} (hb : b ≠ 0) (n : ℤ) : b ^ n.toNat = b ^ n * b ^ (-n).toNat := by
  rw [← zpow_natCast b n.toNat, ← zpow_natCast b (-n).toNat, ← zpow_add₀ hb]
  congr 1
  omega

theorem quarter_pos (r : RoundingInterval) (p : ℤ) : 0 < r.quarter p :=
  Nat.mul_pos (Nat.pow_pos (by decide)) (Nat.pow_pos (by decide))

theorem cell_eq (r : RoundingInterval) (p : ℤ) :
    (r.cell p : ℚ) = 10 ^ p * 2 ^ (2 - r.exponent) * r.quarter p := by
  have hten := pow_toNat_eq (b := 10) (by norm_num) p
  have htwo := pow_toNat_eq (b := 2) (by norm_num) (2 - r.exponent)
  rw [neg_sub] at htwo
  simp only [cell, quarter, Nat.pow_eq, Nat.cast_mul, Nat.cast_pow, Nat.cast_ofNat]
  rw [hten, htwo]
  ring

theorem point_eq (r : RoundingInterval) (d : Decimal) :
    ((d.coefficient * r.cell d.exponent : ℕ) : ℚ) =
      d.value * 2 ^ (2 - r.exponent) * r.quarter d.exponent := by
  rw [Nat.cast_mul, cell_eq, Decimal.value]
  ring

theorem contains_iff_covers (r : RoundingInterval) (d : Decimal) :
    r.contains d = true ↔ r.Covers d.value := by
  have hquarter : (0 : ℚ) < r.quarter d.exponent := by exact_mod_cast r.quarter_pos d.exponent
  have hle (k : ℕ) : k * r.quarter d.exponent ≤ d.coefficient * r.cell d.exponent ↔
      (k : ℚ) ≤ d.value * 2 ^ (2 - r.exponent) := by
    rw [← Nat.cast_le (α := ℚ), point_eq, Nat.cast_mul, mul_le_mul_iff_left₀ hquarter]
  have hge (k : ℕ) : d.coefficient * r.cell d.exponent ≤ k * r.quarter d.exponent ↔
      d.value * 2 ^ (2 - r.exponent) ≤ (k : ℚ) := by
    rw [← Nat.cast_le (α := ℚ), point_eq, Nat.cast_mul, mul_le_mul_iff_left₀ hquarter]
  unfold contains Covers
  cases r.closed with
  | true => simp [hle, hge]
  | false => simp [← not_le, hle, hge]

/-! ## One number, one double -/

/-- A double in normal form: a mantissa of at most 53 bits, with less than 53 bits only where the
    exponent is the lowest one. -/
structure Canonical (r : RoundingInterval) : Prop where
  pos : 0 < r.mantissa
  lt : r.mantissa < 2 ^ 53
  lowest : -1074 ≤ r.exponent
  full : 2 ^ 52 ≤ r.mantissa ∨ r.exponent = -1074

theorem Covers.lower_le {x : ℚ} (h : r.Covers x) : r.lower ≤ x * 2 ^ (2 - r.exponent) := by
  unfold Covers at h
  split at h
  · exact h.1
  · exact h.1.le

theorem Covers.le_upper {x : ℚ} (h : r.Covers x) : x * 2 ^ (2 - r.exponent) ≤ r.upper := by
  unfold Covers at h
  split at h
  · exact h.2
  · exact h.2.le

theorem Covers.lt_upper_of_odd {x : ℚ} (h : r.Covers x) (hodd : r.mantissa % 2 = 1) :
    x * 2 ^ (2 - r.exponent) < r.upper := by
  have hclosed : r.closed = false := by simp [closed, hodd]
  rw [Covers, if_neg (by simp [hclosed])] at h
  exact h.2

theorem Covers.lower_lt_of_odd {x : ℚ} (h : r.Covers x) (hodd : r.mantissa % 2 = 1) :
    r.lower < x * 2 ^ (2 - r.exponent) := by
  have hclosed : r.closed = false := by simp [closed, hodd]
  rw [Covers, if_neg (by simp [hclosed])] at h
  exact h.1

/-- With the same exponent, the interval of a smaller mantissa ends before that of a larger one
    starts. They can meet in one point, but then one of the mantissas is odd. -/
theorem upper_le_lower (hlt : r.mantissa < r'.mantissa) :
    r.upper < r'.lower ∨
      r.upper ≤ r'.lower ∧ (r.mantissa % 2 = 1 ∨ r'.mantissa % 2 = 1) := by
  unfold upper lower center
  split <;> omega

/-- With a smaller exponent, even the largest mantissa stays below the interval of the least full
    one. It is odd, so the point where the two intervals meet is not its own. -/
theorem upper_le_two_mul_lower (h : r.Canonical) (h' : r'.Canonical)
    (hlt : r.exponent < r'.exponent) :
    r.upper < 2 * r'.lower ∨ r.upper ≤ 2 * r'.lower ∧ r.mantissa % 2 = 1 := by
  have hmantissa := h.lt
  have hlowest := h.lowest
  have hfull : 2 ^ 52 ≤ r'.mantissa := by
    rcases h'.full with hfull | hexponent
    · exact hfull
    · omega
  unfold upper lower center
  rw [Nat.pow_eq]
  split <;> omega

theorem mantissa_le_of_covers {x : ℚ} (hexponent : r.exponent = r'.exponent) (hx : r.Covers x)
    (hx' : r'.Covers x) : r'.mantissa ≤ r.mantissa := by
  by_contra hlt
  have hlow := hx'.lower_le
  have hhigh := hx.le_upper
  rw [← hexponent] at hlow
  rcases upper_le_lower (not_le.mp hlt) with hapart | ⟨hmeet, hodd | hodd⟩
  · have hcast : (r.upper : ℚ) < r'.lower := by exact_mod_cast hapart
    linarith
  · have hcast : (r.upper : ℚ) ≤ r'.lower := by exact_mod_cast hmeet
    have hstrict := hx.lt_upper_of_odd hodd
    linarith
  · have hcast : (r.upper : ℚ) ≤ r'.lower := by exact_mod_cast hmeet
    have hstrict := hx'.lower_lt_of_odd hodd
    rw [← hexponent] at hstrict
    linarith

theorem exponent_le_of_covers (h : r.Canonical) (h' : r'.Canonical) {x : ℚ} (hx : r.Covers x)
    (hx' : r'.Covers x) : r'.exponent ≤ r.exponent := by
  by_contra hlt
  rw [not_le] at hlt
  have hlow := hx'.lower_le
  have hhigh := hx.le_upper
  -- What is measured in quarters of the larger unit is at least doubled in quarters of the smaller.
  obtain ⟨k, hk⟩ : ∃ k : ℕ, r'.exponent = r.exponent + 1 + k :=
    ⟨(r'.exponent - r.exponent - 1).toNat, by omega⟩
  have hunits : x * 2 ^ (2 - r.exponent) = x * 2 ^ (2 - r'.exponent) * (2 * 2 ^ k) := by
    have hexponents : 2 - r.exponent = 2 - r'.exponent + 1 + (k : ℤ) := by omega
    rw [hexponents, zpow_add₀ (by norm_num), zpow_add_one₀ (by norm_num), zpow_natCast]
    ring
  have hpow : (1 : ℚ) ≤ 2 ^ k := one_le_pow₀ (by norm_num)
  have hnonneg : (0 : ℚ) ≤ x * 2 ^ (2 - r'.exponent) := le_trans (Nat.cast_nonneg _) hlow
  have hdouble : 2 * (r'.lower : ℚ) ≤ x * 2 ^ (2 - r.exponent) := by
    rw [hunits]
    nlinarith
  rcases upper_le_two_mul_lower h h' hlt with hapart | ⟨hmeet, hodd⟩
  · have hcast : (r.upper : ℚ) < 2 * r'.lower := by exact_mod_cast hapart
    linarith
  · have hcast : (r.upper : ℚ) ≤ 2 * r'.lower := by exact_mod_cast hmeet
    have hstrict := hx.lt_upper_of_odd hodd
    linarith

/-- No number rounds to two doubles. -/
theorem eq_of_covers (h : r.Canonical) (h' : r'.Canonical) {x : ℚ} (hx : r.Covers x)
    (hx' : r'.Covers x) : r = r' := by
  have hexponent : r.exponent = r'.exponent :=
    le_antisymm (exponent_le_of_covers h' h hx' hx) (exponent_le_of_covers h h' hx hx')
  have hmantissa : r.mantissa = r'.mantissa :=
    le_antisymm (mantissa_le_of_covers hexponent.symm hx' hx)
      (mantissa_le_of_covers hexponent hx hx')
  cases r
  cases r'
  simp_all

/-! ## The shortest decimal -/

theorem value_exact (r : RoundingInterval) : r.exact.value = r.mantissa * 2 ^ r.exponent := by
  have htwo := pow_toNat_eq (b := 2) (by norm_num) r.exponent
  have hten : (10 : ℚ) ^ (min r.exponent 0) * 10 ^ (-r.exponent).toNat = 1 := by
    rw [← zpow_natCast, ← zpow_add₀ (by norm_num)]
    have hzero : min r.exponent 0 + ((-r.exponent).toNat : ℤ) = 0 := by omega
    rw [hzero, zpow_zero]
  have hprod : (10 : ℚ) ^ (-r.exponent).toNat =
      2 ^ (-r.exponent).toNat * 5 ^ (-r.exponent).toNat := by
    rw [← mul_pow]
    norm_num
  simp only [exact, Decimal.value, Nat.pow_eq, Nat.cast_mul, Nat.cast_pow, Nat.cast_ofNat]
  rw [htwo]
  calc (r.mantissa : ℚ) * (2 ^ r.exponent * 2 ^ (-r.exponent).toNat) * 5 ^ (-r.exponent).toNat *
        10 ^ min r.exponent 0
      = r.mantissa * 2 ^ r.exponent *
        (10 ^ min r.exponent 0 * (2 ^ (-r.exponent).toNat * 5 ^ (-r.exponent).toNat)) := by ring
    _ = r.mantissa * 2 ^ r.exponent := by rw [← hprod, hten, mul_one]

/-- A positive double rounds to itself. -/
theorem covers_exact (h : 0 < r.mantissa) : r.Covers r.exact.value := by
  have hcenter : r.exact.value * 2 ^ (2 - r.exponent) = (r.center : ℚ) := by
    rw [value_exact, mul_assoc, ← zpow_add₀ (by norm_num)]
    have htwo : r.exponent + (2 - r.exponent) = 2 := by omega
    rw [htwo, center]
    push_cast
    ring
  have hlow : (r.lower : ℚ) < r.center := by
    have hlt : r.lower < r.center := by
      unfold lower center
      split <;> omega
    exact_mod_cast hlt
  have hhigh : (r.center : ℚ) < r.upper := by
    have hlt : r.center < r.upper := by
      unfold upper
      omega
    exact_mod_cast hlt
  unfold Covers
  rw [hcenter]
  split
  · exact ⟨hlow.le, hhigh.le⟩
  · exact ⟨hlow, hhigh⟩

/-- The shortest decimal rounds to the double. -/
theorem covers_shortest (h : 0 < r.mantissa) : r.Covers r.shortest.value := by
  unfold shortest
  rw [Decimal.value_trim]
  cases hfound : (List.range 17).findSome? fun (i : Nat) => r.onGrid? (r.magnitude - 1 - i) with
  | none => exact covers_exact h
  | some d =>
    obtain ⟨i, -, hgrid⟩ := List.exists_of_findSome?_eq_some hfound
    exact (contains_iff_covers r d).mp (contains_of_onGrid? hgrid)

theorem eq_of_positional_shortest_eq (h : r.Canonical) (h' : r'.Canonical)
    (htext : r.shortest.positional = r'.shortest.positional) : r = r' := by
  have hcovers := covers_shortest h.pos
  rw [Decimal.value_eq_of_positional_eq htext] at hcovers
  exact eq_of_covers h h' hcovers (covers_shortest h'.pos)

end RoundingInterval

end TaggedEval
