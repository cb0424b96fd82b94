import Mathlib.Algebra.Order.Field.Rat
import Mathlib.Algebra.Order.Field.Power
import Mathlib.Tactic.Ring
import TaggedEval.Number.Decimal

/-!
# Reading positional notation

`Decimal.value` is the number that a decimal stands for, and `reading` the number that a text in
positional notation stands for: all its digits, divided by ten for each place behind the point.
`reading_positional` says that the text of a decimal keeps the value.
-/

namespace TaggedEval

namespace Decimal

/-- The number `coefficient · 10 ^ exponent`. -/
def value (d : Decimal) : ℚ :=
  d.coefficient * 10 ^ d.exponent

theorem value_trim (d : Decimal) : d.trim.value = d.value := by
  fun_induction trim d with
  | case1 d hd ih =>
    have hcoefficient : d.coefficient = 10 * (d.coefficient / 10) := by omega
    have hcast : (d.coefficient : ℚ) = 10 * (d.coefficient / 10 : Nat) := by
      exact_mod_cast hcoefficient
    rw [ih, value, value, hcast, zpow_add_one₀ (by norm_num)]
    ring
  | case2 d hd => rfl

/-! ## The parts of the text -/

theorem toList_positional_of_nonneg {d : Decimal} (h : 0 ≤ d.exponent) :
    d.positional.toList =
      Nat.toDigits 10 d.coefficient ++ List.replicate d.exponent.toNat '0' := by
  simp [positional, h]

/-- A point stands behind at least one digit, and taken together the digits before and behind it are
    the given ones, after zeros. -/
theorem exists_pointed (digits : List Char) (places : Nat) :
    ∃ whole fraction, pointed digits places = whole ++ '.' :: fraction ∧ whole ≠ [] ∧
      fraction.length = places ∧
      whole ++ fraction = List.replicate (places + 1 - digits.length) '0' ++ digits := by
  unfold pointed
  split
  · rename_i hlt
    refine ⟨_, _, rfl, ?_, ?_, ?_⟩
    · rw [← List.length_pos_iff, List.length_take]
      omega
    · rw [List.length_drop]
      omega
    · have hzeros : places + 1 - digits.length = 0 := by omega
      rw [List.take_append_drop, hzeros, List.replicate_zero, List.nil_append]
  · rename_i hge
    refine ⟨['0'], _, rfl, List.cons_ne_nil _ _, ?_, ?_⟩
    · rw [List.length_append, List.length_replicate]
      omega
    · have hzeros : places + 1 - digits.length = (places - digits.length) + 1 := by omega
      rw [hzeros, List.replicate_succ]
      rfl

theorem toList_positional_of_neg {d : Decimal} (h : d.exponent < 0) :
    ∃ whole fraction zeros, d.positional.toList = whole ++ '.' :: fraction ∧ whole ≠ [] ∧
      fraction.length = (-d.exponent).toNat ∧
      whole ++ fraction = List.replicate zeros '0' ++ Nat.toDigits 10 d.coefficient := by
  obtain ⟨whole, fraction, htext, hwhole, hplaces, hdigits⟩ :=
    exists_pointed (Nat.toDigits 10 d.coefficient) (-d.exponent).toNat
  refine ⟨whole, fraction, _, ?_, hwhole, hplaces, hdigits⟩
  rw [← htext]
  simp [positional, not_le.mpr h]

theorem isDigit_of_mem_zeros_digits {zeros n : Nat} {c : Char}
    (h : c ∈ List.replicate zeros '0' ++ Nat.toDigits 10 n) : c.isDigit = true := by
  rcases List.mem_append.mp h with hzero | hdigit
  · rw [List.eq_of_mem_replicate hzero]
    rfl
  · exact Nat.isDigit_of_mem_toDigits (by decide) (by decide) hdigit

theorem isDigit_or_point_of_mem_positional {d : Decimal} {c : Char}
    (h : c ∈ d.positional.toList) : c.isDigit = true ∨ c = '.' := by
  rcases Int.lt_or_le d.exponent 0 with hneg | hnonneg
  · obtain ⟨whole, fraction, zeros, htext, -, -, hdigits⟩ := toList_positional_of_neg hneg
    rw [htext, List.mem_append, List.mem_cons] at h
    have hall (hc : c ∈ whole ++ fraction) : c.isDigit = true :=
      isDigit_of_mem_zeros_digits (hdigits ▸ hc)
    rcases h with hwhole | hpoint | hfraction
    · exact .inl (hall (List.mem_append_left _ hwhole))
    · exact .inr hpoint
    · exact .inl (hall (List.mem_append_right _ hfraction))
  · rw [toList_positional_of_nonneg hnonneg, List.mem_append, or_comm, ← List.mem_append] at h
    exact .inl (isDigit_of_mem_zeros_digits h)

/-- The text starts with a digit. -/
theorem exists_digit_cons_positional (d : Decimal) :
    ∃ c rest, d.positional.toList = c :: rest ∧ c.isDigit = true := by
  rcases Int.lt_or_le d.exponent 0 with hneg | hnonneg
  · obtain ⟨whole, fraction, zeros, htext, hwhole, -, hdigits⟩ := toList_positional_of_neg hneg
    obtain ⟨c, rest, rfl⟩ := List.exists_cons_of_ne_nil hwhole
    have hmem : c ∈ c :: rest ++ fraction := List.mem_cons_self
    rw [hdigits] at hmem
    exact ⟨c, _, htext, isDigit_of_mem_zeros_digits hmem⟩
  · obtain ⟨c, rest, hc⟩ := List.exists_cons_of_ne_nil
      (Nat.toDigits_ne_nil (n := d.coefficient) (b := 10))
    have hdigit : c.isDigit = true :=
      Nat.isDigit_of_mem_toDigits (by decide) (by decide) (hc ▸ List.mem_cons_self)
    exact ⟨c, _, by rw [toList_positional_of_nonneg hnonneg, hc]; rfl, hdigit⟩

/-! ## Reading the text -/

/-- The number that a text in positional notation stands for. -/
def reading (text : List Char) : ℚ :=
  Nat.ofDigitChars 10 (text.filter (· ≠ '.')) 0 /
    10 ^ ((text.dropWhile (· ≠ '.')).length - 1)

theorem decide_ne_point_of_isDigit {c : Char} (h : c.isDigit = true) :
    decide (c ≠ '.') = true := by
  rw [decide_eq_true_eq]
  intro hpoint
  rw [hpoint] at h
  cases h

theorem filter_ne_point {digits : List Char} (h : ∀ c ∈ digits, c.isDigit = true) :
    digits.filter (· ≠ '.') = digits :=
  List.filter_eq_self.mpr fun c hc => decide_ne_point_of_isDigit (h c hc)

theorem dropWhile_ne_point {digits : List Char} (h : ∀ c ∈ digits, c.isDigit = true)
    (rest : List Char) :
    (digits ++ rest).dropWhile (· ≠ '.') = rest.dropWhile (· ≠ '.') :=
  List.dropWhile_append_of_pos fun c hc => decide_ne_point_of_isDigit (h c hc)

theorem reading_digits {digits : List Char} (h : ∀ c ∈ digits, c.isDigit = true) :
    reading digits = Nat.ofDigitChars 10 digits 0 := by
  have hdrop := dropWhile_ne_point h []
  rw [List.append_nil] at hdrop
  rw [reading, filter_ne_point h, hdrop]
  simp

theorem reading_pointed {whole fraction : List Char}
    (h : ∀ c ∈ whole ++ fraction, c.isDigit = true) :
    reading (whole ++ '.' :: fraction) =
      Nat.ofDigitChars 10 (whole ++ fraction) 0 / 10 ^ fraction.length := by
  have hwhole (c : Char) (hc : c ∈ whole) : c.isDigit = true := h c (List.mem_append_left _ hc)
  have hfilter : (whole ++ '.' :: fraction).filter (· ≠ '.') = whole ++ fraction := by
    rw [← filter_ne_point h]
    simp
  rw [reading, hfilter, dropWhile_ne_point hwhole]
  simp

theorem reading_positional (d : Decimal) : reading d.positional.toList = d.value := by
  rcases Int.lt_or_le d.exponent 0 with hneg | hnonneg
  · obtain ⟨whole, fraction, zeros, htext, -, hplaces, hdigits⟩ := toList_positional_of_neg hneg
    have hexponent : d.exponent = -(fraction.length : ℤ) := by omega
    rw [htext, reading_pointed (fun c hc => isDigit_of_mem_zeros_digits (hdigits ▸ hc)), hdigits,
      Nat.ofDigitChars_append, Nat.ofDigitChars_replicate_zero, Nat.mul_zero,
      Nat.ofDigitChars_ten_toDigits, value, hexponent, zpow_neg, zpow_natCast, div_eq_mul_inv]
  · obtain ⟨n, hexponent⟩ := Int.eq_ofNat_of_zero_le hnonneg
    have hzeros : d.exponent.toNat = n := by omega
    have hdigits (c : Char) (hc : c ∈ Nat.toDigits 10 d.coefficient ++ List.replicate n '0') :
        c.isDigit = true := by
      rw [List.mem_append, or_comm, ← List.mem_append] at hc
      exact isDigit_of_mem_zeros_digits hc
    rw [toList_positional_of_nonneg hnonneg, hzeros, reading_digits hdigits,
      Nat.ofDigitChars_append, Nat.ofDigitChars_ten_toDigits, Nat.ofDigitChars_replicate_zero,
      value, hexponent, zpow_natCast]
    push_cast
    ring

theorem value_eq_of_positional_eq {d d' : Decimal} (h : d.positional = d'.positional) :
    d.value = d'.value := by
  rw [← reading_positional, ← reading_positional, h]

end Decimal

end TaggedEval
