import Mathlib
import TaggedEval.Proofs.Number.Arithmetic
import TaggedEval.Proofs.Sequence.Spine
import TaggedEval.Sequence.Arithmetic

/-!
# Ranges

The numbers of a range are counted down from the upper bound. The difference to `1` may be rounded,
but not past an integer, so each round lowers the ceiling of what is left (`exists_next`). That
bounds the rounds and makes the numbers descend (`exists_countsDown`, `CountsDown.descends`). When
the upper bound is an integer every difference is exact, and the numbers are the integers between
the bounds (`CountsDown.exists_integers`).
-/

namespace TaggedEval

namespace Sequence

/-! ## Bounds -/

/-- The number is NaN, infinite, or of a magnitude of `2 ^ 53` or more. -/
def Unusable (x : Float) : Prop :=
  x.isNaN = true ∨ x.isInf = true ∨ ∃ q, Denotes x q ∧ 2 ^ 53 ≤ |q|

theorem denotes_boundLimit : Denotes boundLimit (2 ^ 53) :=
  ⟨⟨false, 2 ^ 52, 1⟩, rfl, by norm_num [BinaryNumber.value]⟩

theorem numberText_boundLimit : numberText boundLimit = "9007199254740992" := by
  decide +kernel

theorem isBound_iff {x : Float} : isBound x = true ↔ ∃ q, Denotes x q ∧ |q| < 2 ^ 53 := by
  rw [isBound, Bool.and_eq_true, decide_eq_true_iff, ← exists_denotes_iff]
  constructor
  · rintro ⟨⟨q, hq⟩, hlt⟩
    exact ⟨q, hq, (hq.abs.lt_iff denotes_boundLimit).mp hlt⟩
  · rintro ⟨q, hq, hlt⟩
    exact ⟨⟨q, hq⟩, (hq.abs.lt_iff denotes_boundLimit).mpr hlt⟩

theorem isBound_eq_false_iff {x : Float} : isBound x = false ↔ Unusable x := by
  rw [← Bool.not_eq_true, isBound_iff, Unusable, ← or_assoc]
  by_cases hfinite : x.isFinite = true
  · obtain ⟨q, hq⟩ := exists_denotes_iff.mpr hfinite
    rw [or_iff_right ((isFinite_iff x).mp hfinite)]
    constructor
    · exact fun h => ⟨q, hq, le_of_not_gt fun hlt => h ⟨q, hq, hlt⟩⟩
    · rintro ⟨p, hp, hge⟩ ⟨p', hp', hlt⟩
      rw [hp.unique hp'] at hge
      exact absurd hlt (not_lt_of_ge hge)
  · refine iff_of_true ?_ (.inl (of_not_not fun h => hfinite ((isFinite_iff x).mpr h)))
    rintro ⟨q, hq, -⟩
    exact hfinite (exists_denotes_iff.mp ⟨q, hq⟩)

theorem not_unusable_iff {x : Float} : ¬ Unusable x ↔ isBound x = true := by
  rw [← isBound_eq_false_iff, Bool.not_eq_false]

theorem exists_denotes_of_usable {x : Float} (h : ¬ Unusable x) :
    ∃ q, Denotes x q ∧ |q| < 2 ^ 53 :=
  isBound_iff.mp (not_unusable_iff.mp h)

/-! ## The loop -/

/-- Counting down from `hi` to `lo` takes these numbers, in this order, and ends. A round takes the
    number that it starts with, if that is not below `lo`, and goes on with the difference to `1`. -/
inductive CountsDown (lo : Float) : Float → List Float → Prop
  | stop {hi : Float} (h : ¬ lo ≤ hi) : CountsDown lo hi []
  | round {hi : Float} {taken : List Float} (h : lo ≤ hi) (rest : CountsDown lo (hi - 1) taken) :
      CountsDown lo hi (hi :: taken)

variable {lo hi : Float} {taken : List Float} {low high : ℚ}

/-- As long as there are enough steps, their number makes no difference. -/
theorem CountsDown.countDown_eq (h : CountsDown lo hi taken) {steps : Nat}
    (hsteps : taken.length ≤ steps) (acc : Value) :
    countDown lo steps hi acc = chain (taken.reverse.map .number) acc := by
  induction h generalizing steps acc with
  | stop h =>
    cases steps with
    | zero => rfl
    | succ steps => exact if_neg h
  | @round hi taken h rest ih =>
    cases steps with
    | zero => cases hsteps
    | succ steps =>
      rw [countDown, if_pos h, ih (Nat.le_of_succ_le_succ hsteps), List.reverse_cons,
        List.map_append, chain_append]
      rfl

/-- The difference to `1` stays above the integer below it, and does not pass the one above it. -/
theorem exists_next (hlo : Denotes lo low) (hlow : |low| < 2 ^ 53) (hhi : Denotes hi high)
    (hhigh : high < 2 ^ 53) (hle : low ≤ high) :
    ∃ next, Denotes (hi - 1) next ∧ next ≤ ⌈high⌉ - 1 ∧ next < high := by
  have hlowest := (abs_le.mp (hlo.abs_le_of_lt hlow)).1
  have habs : |high - 1| ≤ 2 ^ 53 := abs_le.mpr ⟨by linarith, by linarith⟩
  obtain ⟨next, hnext, hadjacent⟩ := hhi.sub denotes_one habs
  have hceil := hadjacent.le_ceil habs
  rw [Int.ceil_sub_one, Int.cast_sub, Int.cast_one] at hceil
  have hlt := Int.ceil_lt_add_one high
  exact ⟨next, hnext, hceil, by linarith⟩

/-- The loop ends, after at most one round for each integer from the ceiling of the lower bound to
    the ceiling of the upper one. -/
theorem exists_countsDown (hlo : Denotes lo low) (hlow : |low| < 2 ^ 53) (hhi : Denotes hi high)
    (hhigh : high < 2 ^ 53) :
    ∃ taken, CountsDown lo hi taken ∧ taken.length ≤ (⌈high⌉ - ⌈low⌉ + 1).toNat := by
  generalize hn : (⌈high⌉ - ⌈low⌉ + 1).toNat = n
  -- The ceiling of what is left drops in each round, by one or more.
  induction n using Nat.strong_induction_on generalizing hi high with
  | _ n ih =>
    by_cases hle : lo ≤ hi
    · have hlowhigh := (hlo.le_iff hhi).mp hle
      obtain ⟨next, hnext, hceil, hlt⟩ := exists_next hlo hlow hhi hhigh hlowhigh
      have hfewer : ⌈next⌉ ≤ ⌈high⌉ - 1 := Int.ceil_le.mpr (by exact_mod_cast hceil)
      have hceils := Int.ceil_mono hlowhigh
      obtain ⟨taken, htaken, hlength⟩ :=
        ih (⌈next⌉ - ⌈low⌉ + 1).toNat (by omega) hnext (hlt.trans hhigh) rfl
      refine ⟨hi :: taken, .round hle htaken, ?_⟩
      rw [List.length_cons]
      omega
    · exact ⟨[], .stop hle, Nat.zero_le _⟩

/-- The numbers that are taken descend, and lie between the bounds. -/
theorem CountsDown.descends (h : CountsDown lo hi taken) (hlo : Denotes lo low)
    (hlow : |low| < 2 ^ 53) (hhi : Denotes hi high) (hhigh : high < 2 ^ 53) :
    taken.Pairwise (fun x y => y < x) ∧ ∀ x ∈ taken, lo ≤ x ∧ ∃ q, Denotes x q ∧ q ≤ high := by
  induction h generalizing high with
  | stop h => exact ⟨.nil, fun x hx => absurd hx List.not_mem_nil⟩
  | @round hi taken h rest ih =>
    obtain ⟨next, hnext, -, hlt⟩ := exists_next hlo hlow hhi hhigh ((hlo.le_iff hhi).mp h)
    obtain ⟨hpairwise, hmem⟩ := ih hnext (hlt.trans hhigh)
    refine ⟨List.pairwise_cons.mpr ⟨fun x hx => ?_, hpairwise⟩, fun x hx => ?_⟩
    · obtain ⟨-, q, hq, hle⟩ := hmem x hx
      exact (hq.lt_iff hhi).mpr (lt_of_le_of_lt hle hlt)
    · rcases List.mem_cons.mp hx with rfl | hx
      · exact ⟨h, high, hhi, le_refl high⟩
      · obtain ⟨hle, q, hq, hqnext⟩ := hmem x hx
        exact ⟨hle, q, hq, hqnext.trans hlt.le⟩

/-- From an integer on, the numbers that are taken are the integers down to the lower bound, and no
    difference is rounded, not even the one that ends the loop. -/
theorem CountsDown.exists_integers (h : CountsDown lo hi taken) (hlo : Denotes lo low)
    (hlow : |low| < 2 ^ 53) {n : ℤ} (hhi : Denotes hi n) (hn : n < 2 ^ 53) :
    ∃ ks : List ℤ, List.Forall₂ (fun x (k : ℤ) => Denotes x k ∧ Denotes (x - 1) ↑(k - 1)) taken ks ∧
      ks.Pairwise (fun j k => k < j) ∧ ∀ k : ℤ, k ∈ ks ↔ low ≤ k ∧ k ≤ n := by
  induction h generalizing n with
  | stop h =>
    refine ⟨[], .nil, .nil, fun k => iff_of_false List.not_mem_nil ?_⟩
    rintro ⟨hlowk, hkn⟩
    exact h ((hlo.le_iff hhi).mpr (hlowk.trans (Int.cast_le.mpr hkn)))
  | @round hi taken h rest ih =>
    have hlowhigh := (hlo.le_iff hhi).mp h
    have hnext : Denotes (hi - 1) ↑(n - 1) := by
      apply hhi.sub_integer denotes_one (by push_cast; ring)
      have hlowest := (abs_le.mp (hlo.abs_le_of_lt hlow)).1
      have hbelow : (-(2 ^ 53 - 1) : ℤ) ≤ n := by exact_mod_cast hlowest.trans hlowhigh
      exact abs_le.mpr ⟨by linarith, by linarith⟩
    obtain ⟨ks, hdenotes, hpairwise, hmem⟩ := ih hnext (by linarith)
    refine ⟨n :: ks, .cons ⟨hhi, hnext⟩ hdenotes, List.pairwise_cons.mpr ⟨fun k hk => ?_, hpairwise⟩,
      fun k => ?_⟩
    · have hle := ((hmem k).mp hk).2
      omega
    · rw [List.mem_cons, hmem]
      constructor
      · rintro (rfl | ⟨hlowk, hk⟩)
        · exact ⟨hlowhigh, le_refl _⟩
        · exact ⟨hlowk, by omega⟩
      · rintro ⟨hlowk, hk⟩
        rcases eq_or_lt_of_le hk with heq | hlt
        · exact .inl heq
        · exact .inr ⟨hlowk, by omega⟩

/-! ## The range -/

theorem range_of_unusable_low (h : Unusable lo) :
    range lo hi = .error (.of (.unusableBound (numberText lo))) := by
  rw [range, isBound_eq_false_iff.mpr h]
  rfl

theorem range_of_unusable_high (hlo : ¬ Unusable lo) (h : Unusable hi) :
    range lo hi = .error (.of (.unusableBound (numberText hi))) := by
  rw [range, not_unusable_iff.mp hlo, isBound_eq_false_iff.mpr h]
  rfl

theorem countLimit_eq (hlo : Denotes lo low) (hhi : Denotes hi high) :
    countLimit lo hi = (⌊high⌋ - ⌈low⌉ + 2).toNat := by
  obtain ⟨b, hb, rfl⟩ := hlo
  obtain ⟨c, hc, rfl⟩ := hhi
  simp only [countLimit, hb, hc, BinaryNumber.floor_eq, BinaryNumber.ceil_eq]

/-- Between bounds that are accepted the loop ends within the limit on its rounds, and the range is
    what it took, in reverse. -/
theorem exists_range_eq (hlo : Denotes lo low) (hlow : |low| < 2 ^ 53) (hhi : Denotes hi high)
    (hhigh : |high| < 2 ^ 53) :
    ∃ taken, CountsDown lo hi taken ∧ taken.length ≤ (⌊high⌋ - ⌈low⌉ + 2).toNat ∧
      range lo hi = .ok (ofList (taken.reverse.map .number)) := by
  obtain ⟨taken, htaken, hlength⟩ :=
    exists_countsDown hlo hlow hhi (lt_of_le_of_lt (le_abs_self high) hhigh)
  have hceil := Int.ceil_le_floor_add_one high
  have hlimit : taken.length ≤ (⌊high⌋ - ⌈low⌉ + 2).toNat := by omega
  refine ⟨taken, htaken, hlimit, ?_⟩
  rw [range, isBound_iff.mpr ⟨low, hlo, hlow⟩, isBound_iff.mpr ⟨high, hhi, hhigh⟩,
    countLimit_eq hlo hhi, htaken.countDown_eq hlimit]
  rfl

theorem range_error_iff : (∃ failure, range lo hi = .error failure) ↔ Unusable lo ∨ Unusable hi := by
  constructor
  · rintro ⟨failure, h⟩
    by_contra hboth
    obtain ⟨hlo, hhi⟩ := not_or.mp hboth
    obtain ⟨low, hlo, hlow⟩ := exists_denotes_of_usable hlo
    obtain ⟨high, hhi, hhigh⟩ := exists_denotes_of_usable hhi
    obtain ⟨taken, -, -, hok⟩ := exists_range_eq hlo hlow hhi hhigh
    rw [hok] at h
    cases h
  · intro h
    by_cases hlo : Unusable lo
    · exact ⟨_, range_of_unusable_low hlo⟩
    · exact ⟨_, range_of_unusable_high hlo (h.resolve_left hlo)⟩

/-- A range fails exactly when a bound is not usable, with the lower bound if it is that one. Up to
    an integer it consists of the integers between the bounds, each once and ascending, and no
    difference of the loop is rounded. -/
theorem range_to_integer (lo hi : Float) :
    ((∃ failure, range lo hi = .error failure) ↔ Unusable lo ∨ Unusable hi) ∧
      (Unusable lo → range lo hi = .error (.of (.unusableBound (numberText lo)))) ∧
      (¬ Unusable lo → Unusable hi → range lo hi = .error (.of (.unusableBound (numberText hi)))) ∧
      (¬ Unusable lo → ¬ Unusable hi → ∀ n : ℤ, Denotes hi n →
        ∃ (low : ℚ) (nums : List Float) (ks : List ℤ), Denotes lo low ∧
          CountsDown lo hi nums.reverse ∧ range lo hi = .ok (ofList (nums.map .number)) ∧
          List.Forall₂ (fun x (k : ℤ) => Denotes x k ∧ Denotes (x - 1) ↑(k - 1)) nums ks ∧
          ks.Pairwise (· < ·) ∧ (∀ k : ℤ, k ∈ ks ↔ low ≤ k ∧ k ≤ n) ∧
          (ks = [] → range lo hi = .ok .nil)) := by
  refine ⟨range_error_iff, range_of_unusable_low, range_of_unusable_high, ?_⟩
  intro hlo hhi n hn
  obtain ⟨low, hlo, hlow⟩ := exists_denotes_of_usable hlo
  obtain ⟨high, hhi, hhigh⟩ := exists_denotes_of_usable hhi
  obtain rfl := hn.unique hhi
  obtain ⟨taken, htaken, -, hok⟩ := exists_range_eq hlo hlow hhi hhigh
  have hlt : n < 2 ^ 53 := by exact_mod_cast lt_of_le_of_lt (le_abs_self (n : ℚ)) hhigh
  obtain ⟨ks, hdenotes, hpairwise, hmem⟩ := htaken.exists_integers hlo hlow hhi hlt
  refine ⟨low, taken.reverse, ks.reverse, hlo, ?_, hok, List.rel_reverse hdenotes,
    List.pairwise_reverse.mpr hpairwise, fun k => ?_, fun hnone => ?_⟩
  · rwa [List.reverse_reverse]
  · rw [List.mem_reverse, hmem]
  · rw [List.reverse_eq_nil_iff] at hnone
    rw [hnone, List.forall₂_nil_right_iff] at hdenotes
    rw [hok, hdenotes]
    rfl

/-- From `-1/2` to `2`, and up to a number that is just too large, which the failure shows. -/
theorem range_to_integer_two :
    range 0 9007199254740992 = .error (.of (.unusableBound "9007199254740992")) ∧
      ∃ (nums : List Float) (ks : List ℤ), range (-0.5) 2 = .ok (ofList (nums.map .number)) ∧
        List.Forall₂ (fun x (k : ℤ) => Denotes x k ∧ Denotes (x - 1) ↑(k - 1)) nums ks ∧
        ks.Pairwise (· < ·) ∧ ∀ k : ℤ, k ∈ ks ↔ (-(1 / 2) : ℚ) ≤ k ∧ k ≤ 2 := by
  have htwo : Denotes 2 (2 : ℤ) := ⟨⟨false, 2 ^ 52, -51⟩, rfl, by norm_num [BinaryNumber.value]⟩
  have hhalf : Denotes (-0.5) (-(1 / 2)) :=
    ⟨⟨true, 2 ^ 52, -53⟩, rfl, by norm_num [BinaryNumber.value]⟩
  constructor
  · rw [← numberText_boundLimit]
    exact (range_to_integer 0 9007199254740992).2.2.1 (not_unusable_iff.mpr (by decide))
      (isBound_eq_false_iff.mp (by decide))
  · obtain ⟨low, nums, ks, hlow, -, hok, hdenotes, hpairwise, hmem, -⟩ :=
      (range_to_integer (-0.5) 2).2.2.2 (not_unusable_iff.mpr (by decide))
        (not_unusable_iff.mpr (by decide)) 2 htwo
    obtain rfl := hlow.unique hhalf
    exact ⟨nums, ks, hok, hdenotes, hpairwise, hmem⟩

-- From the lowest bound of all the loop goes on to `-2 ^ 53`, where one more difference would not
-- move.
example : range (-9007199254740991) (-9007199254740991) =
    .ok (ofList [.number (-9007199254740991)]) := rfl

/-- Between usable bounds, fractions or not, the loop ends, and what it puts in the list ascends
    from the lower bound, or a number above it, to the upper bound. -/
theorem range_of_le {lo hi : Float} (hlo : ¬ Unusable lo) (hhi : ¬ Unusable hi) (hle : lo ≤ hi) :
    ∃ (low high : ℚ) (nums : List Float), Denotes lo low ∧ Denotes hi high ∧
      CountsDown lo hi nums.reverse ∧ (nums.length : ℤ) ≤ ⌊high⌋ - ⌈low⌉ + 2 ∧
      range lo hi = .ok (ofList (nums.map .number)) ∧ nums.Pairwise (· < ·) ∧ nums ≠ [] ∧
      nums.getLast? = some hi ∧ ∀ x ∈ nums, lo ≤ x := by
  obtain ⟨low, hlo, hlow⟩ := exists_denotes_of_usable hlo
  obtain ⟨high, hhi, hhigh⟩ := exists_denotes_of_usable hhi
  obtain ⟨taken, htaken, hlength, hok⟩ := exists_range_eq hlo hlow hhi hhigh
  obtain ⟨hpairwise, hmem⟩ :=
    htaken.descends hlo hlow hhi (lt_of_le_of_lt (le_abs_self high) hhigh)
  have hceils := Int.ceil_mono ((hlo.le_iff hhi).mp hle)
  have hceil := Int.ceil_le_floor_add_one high
  have hfirst : taken.head? = some hi := by
    cases htaken with
    | stop h => exact absurd hle h
    | round => rfl
  refine ⟨low, high, taken.reverse, hlo, hhi, ?_, ?_, hok, List.pairwise_reverse.mpr hpairwise,
    ?_, ?_, ?_⟩
  · rwa [List.reverse_reverse]
  · rw [List.length_reverse]
    omega
  · rintro hnil
    rw [List.reverse_eq_nil_iff.mp hnil] at hfirst
    cases hfirst
  · rw [List.getLast?_reverse, hfirst]
  · intro x hx
    exact (hmem x (List.mem_reverse.mp hx)).1

/-- The upper bound is not quite `1 / 10`, and the difference to `1` is rounded. -/
theorem range_of_le_tenth :
    ¬ Unusable (-1) ∧ ¬ Unusable 0.1 ∧ (-1 : Float) ≤ 0.1 ∧
      ∃ (low high : ℚ) (nums : List Float), Denotes (-1) low ∧ Denotes 0.1 high ∧
        CountsDown (-1) 0.1 nums.reverse ∧ (nums.length : ℤ) ≤ ⌊high⌋ - ⌈low⌉ + 2 ∧
        range (-1) 0.1 = .ok (ofList (nums.map .number)) ∧ nums.Pairwise (· < ·) ∧ nums ≠ [] ∧
        nums.getLast? = some 0.1 ∧ ∀ x ∈ nums, -1 ≤ x := by
  have hlow : ¬ Unusable (-1) := not_unusable_iff.mpr (by decide)
  have hhigh : ¬ Unusable 0.1 := not_unusable_iff.mpr (by decide)
  have hle : (-1 : Float) ≤ 0.1 := by decide
  exact ⟨hlow, hhigh, hle, range_of_le hlow hhigh hle⟩

end Sequence

end TaggedEval
