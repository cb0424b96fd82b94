import TaggedEval.Number.Text
import TaggedEval.Proofs.Number.Equality

/-!
# Numbers with the same text

Apart from NaN, two numbers have the same text exactly when they are equal as doubles
(`numberText_eq_iff`). The finite ones rest on the rounding intervals, as the shortest decimals of
different doubles are different numbers; the infinities and the zeros have texts that no other
number has.
-/

namespace TaggedEval

open Float.Model Float.Model.UnpackedFloat

/-! ## Texts of finite numbers -/

namespace RoundingInterval

variable {r r' : RoundingInterval}

theorem value_shortest_pos (h : 0 < r.mantissa) : 0 < r.shortest.value := by
  have hlower : 0 < r.lower := by
    unfold lower center
    split <;> omega
  have hpos : (0 : ℚ) < r.shortest.value * 2 ^ (2 - r.exponent) :=
    lt_of_lt_of_le (by exact_mod_cast hlower) (covers_shortest h).lower_le
  exact pos_of_mul_pos_left hpos (by positivity)

/-- The text of a number that is not zero, without its sign, is not that of zero. -/
theorem positional_shortest_ne_zero (h : 0 < r.mantissa) : r.shortest.positional ≠ "0" := by
  intro htext
  have hreading := Decimal.reading_positional r.shortest
  have hzero : Decimal.reading "0".toList = 0 := by
    rw [Decimal.reading_digits (by simp)]
    rfl
  have hpos := value_shortest_pos h
  rw [htext, hzero] at hreading
  exact absurd hreading.symm hpos.ne'

end RoundingInterval

/-- The sign and the digits of a number can be told apart. -/
theorem signed_positional_inj {sign sign' : Sign} {d d' : Decimal}
    (h : signText sign ++ d.positional = signText sign' ++ d'.positional) :
    sign = sign' ∧ d.positional = d'.positional := by
  have hchars := congrArg String.toList h
  rw [String.toList_append, String.toList_append] at hchars
  obtain ⟨c, rest, hc, hdigit⟩ := d.exists_digit_cons_positional
  obtain ⟨c', rest', hc', hdigit'⟩ := d'.exists_digit_cons_positional
  cases sign <;> cases sign'
  · exact ⟨rfl, String.toList_inj.mp (List.append_cancel_left hchars)⟩
  · rw [hc'] at hchars
    cases hchars
    cases hdigit'
  · rw [hc] at hchars
    cases hchars
    cases hdigit
  · exact ⟨rfl, String.toList_inj.mp (List.append_cancel_left hchars)⟩

theorem mem_signed_positional {sign : Sign} {d : Decimal} {c : Char}
    (h : c ∈ (signText sign ++ d.positional).toList) : c = '-' ∨ c.isDigit = true ∨ c = '.' := by
  rw [String.toList_append, List.mem_append] at h
  rcases h with hsign | hdigits
  · cases sign with
    | negative => exact .inl (List.mem_singleton.mp hsign)
    | positive => cases hsign
  · exact .inr (Decimal.isDigit_or_point_of_mem_positional hdigits)

theorem signed_positional_ne_infinity (sign sign' : Sign) (d : Decimal) :
    signText sign ++ d.positional ≠ signText sign' ++ "Infinity" := by
  intro htext
  have hmem : 'I' ∈ (signText sign ++ d.positional).toList := by
    rw [htext, String.toList_append]
    exact List.mem_append_right _ List.mem_cons_self
  rcases mem_signed_positional hmem with hc | hc | hc <;> cases hc

theorem signed_positional_ne_zero (sign : Sign) {r : RoundingInterval} (h : 0 < r.mantissa) :
    signText sign ++ r.shortest.positional ≠ "0" := by
  intro htext
  cases sign with
  | negative =>
    have hchars := congrArg String.toList htext
    rw [String.toList_append] at hchars
    cases hchars
  | positive =>
    have hdigits : r.shortest.positional = "0" := by simpa [signText] using htext
    exact RoundingInterval.positional_shortest_ne_zero h hdigits

theorem signed_shortest_eq_iff {sign sign' : Sign} {r r' : RoundingInterval} (h : r.Canonical)
    (h' : r'.Canonical) :
    signText sign ++ r.shortest.positional = signText sign' ++ r'.shortest.positional ↔
      sign = sign' ∧ r = r' := by
  constructor
  · intro htext
    obtain ⟨hsign, hpositional⟩ := signed_positional_inj htext
    exact ⟨hsign, RoundingInterval.eq_of_positional_shortest_eq h h' hpositional⟩
  · rintro ⟨hsign, hr⟩
    rw [hsign, hr]

/-! ## All numbers -/

section

variable {x y : Float}

theorem numberText_of_finite {sign : Sign} {mantissa : Nat} {exponent : Int} {pos : 0 < mantissa}
    (h : x.toModel.unpack = .finite sign mantissa exponent pos) :
    numberText x =
      signText sign ++ (RoundingInterval.mk mantissa exponent).shortest.positional := by
  unfold numberText
  rw [h]

theorem numberText_of_infinity {sign : Sign} (h : x.toModel.unpack = .infinity sign) :
    numberText x = signText sign ++ "Infinity" := by
  unfold numberText
  rw [h]

theorem numberText_of_zero {sign : Sign} (h : x.toModel.unpack = .zero sign) :
    numberText x = "0" := by
  unfold numberText
  rw [h]

theorem numberText_eq_iff (hx : x.isNaN = false) (hy : y.isNaN = false) :
    numberText x = numberText y ↔ (x == y) = true := by
  rw [beq_iff_unpack hx hy]
  cases hu : x.toModel.unpack with
  | notANumber => exact absurd hu (isNaN_eq_false_iff.mp hx)
  | infinity sign =>
    rw [numberText_of_infinity hu]
    cases hv : y.toModel.unpack with
    | notANumber => exact absurd hv (isNaN_eq_false_iff.mp hy)
    | infinity sign' =>
      rw [numberText_of_infinity hv]
      cases sign <;> cases sign' <;> simp [signText]
    | zero sign' =>
      rw [numberText_of_zero hv]
      cases sign <;> simp [signText]
    | finite sign' m' e' pos' =>
      rw [numberText_of_finite hv]
      simp [(signed_positional_ne_infinity _ _ _).symm]
  | zero sign =>
    rw [numberText_of_zero hu]
    cases hv : y.toModel.unpack with
    | notANumber => exact absurd hv (isNaN_eq_false_iff.mp hy)
    | infinity sign' =>
      rw [numberText_of_infinity hv]
      cases sign' <;> simp [signText]
    | zero sign' =>
      rw [numberText_of_zero hv]
      simp
    | finite sign' m' e' pos' =>
      rw [numberText_of_finite hv]
      simp [(signed_positional_ne_zero sign' (r := ⟨m', e'⟩) pos').symm]
  | finite sign m e pos =>
    rw [numberText_of_finite hu]
    cases hv : y.toModel.unpack with
    | notANumber => exact absurd hv (isNaN_eq_false_iff.mp hy)
    | infinity sign' =>
      rw [numberText_of_infinity hv]
      simp [signed_positional_ne_infinity]
    | zero sign' =>
      rw [numberText_of_zero hv]
      simp [signed_positional_ne_zero sign (r := ⟨m, e⟩) pos]
    | finite sign' m' e' pos' =>
      rw [numberText_of_finite hv,
        signed_shortest_eq_iff (canonical_of_unpack hu) (canonical_of_unpack hv)]
      simp

theorem numberText_eq_of_beq (h : (x == y) = true) : numberText x = numberText y := by
  obtain ⟨hx, hy⟩ := isNaN_eq_false_of_beq h
  exact (numberText_eq_iff hx hy).mpr h

end

/-! ## Numbers inside other texts -/

theorem ne_separator_of_mem_numberText {x : Float} {c : Char}
    (h : c ∈ (numberText x).toList) : c ≠ ',' ∧ c ≠ ')' := by
  unfold numberText at h
  split at h
  · constructor <;> rintro rfl <;> revert h <;> decide
  · rename_i sign _
    cases sign <;> constructor <;> rintro rfl <;> revert h <;> decide
  · constructor <;> rintro rfl <;> revert h <;> decide
  · rcases mem_signed_positional h with rfl | hdigit | rfl
    · decide
    · constructor <;> rintro rfl <;> cases hdigit
    · decide

/-- A number starts neither as a text does nor as a tagged value does. -/
theorem exists_cons_numberText (x : Float) :
    ∃ c rest, (numberText x).toList = c :: rest ∧ c ≠ '"' ∧ c ≠ 't' := by
  unfold numberText
  split
  · exact ⟨'N', _, rfl, by decide, by decide⟩
  · rename_i sign _
    cases sign with
    | negative => exact ⟨'-', _, rfl, by decide, by decide⟩
    | positive => exact ⟨'I', _, rfl, by decide, by decide⟩
  · exact ⟨'0', _, rfl, by decide, by decide⟩
  · rename_i sign m e pos _
    rw [String.toList_append]
    cases sign with
    | negative => exact ⟨'-', _, rfl, by decide, by decide⟩
    | positive =>
      obtain ⟨c, rest, hc, hdigit⟩ :=
        (RoundingInterval.mk m e).shortest.exists_digit_cons_positional
      refine ⟨c, rest, hc, ?_, ?_⟩ <;> rintro rfl <;> cases hdigit

end TaggedEval
