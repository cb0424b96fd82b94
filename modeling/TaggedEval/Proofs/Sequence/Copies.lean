import Mathlib
import TaggedEval.Proofs.Sequence.Range
import TaggedEval.Proofs.Sequence.Traversals

/-!
# Copies

A value is repeated by mapping a range that starts at `0`, so there are as many copies as the loop of
the range takes numbers. Each round lowers the floor of what is left by one, until a negative number
is left (`Denotes.floor_sub_one`). So from a number on there is one round for each natural number up
to it (`CountsDown.length_eq`), also if the number is a fraction and its differences are rounded.
-/

namespace TaggedEval

namespace Sequence

/-- Down to `0` the loop takes one number for each natural number up to the one it starts with. -/
theorem CountsDown.length_eq {hi : Float} {taken : List Float} {high : ℚ}
    (h : CountsDown 0 hi taken) (hhi : Denotes hi high) (hhigh : high < 2 ^ 53) :
    (taken.length : ℤ) = max 0 (⌊high⌋ + 1) := by
  induction h generalizing high with
  | stop h =>
    have hneg : high < 0 := not_le.mp fun hle => h ((denotes_zero.le_iff hhi).mpr hle)
    have hfloor : ⌊high⌋ < 0 := Int.floor_lt.mpr (by exact_mod_cast hneg)
    rw [max_eq_left (by omega)]
    rfl
  | @round hi taken h rest ih =>
    have hnonneg := (denotes_zero.le_iff hhi).mp h
    have hfloor := Int.floor_nonneg.mpr hnonneg
    -- `hfewer` holds in the last round as well, where the difference is negative.
    obtain ⟨next, hnext, hle, hfewer⟩ := hhi.floor_sub_one denotes_one hnonneg hhigh.le
    have hlength := ih hnext (lt_of_le_of_lt hle hhigh)
    rw [List.length_cons, Nat.cast_succ, hlength, hfewer, max_eq_right (by omega)]

theorem not_unusable_zero : ¬ Unusable 0 :=
  not_unusable_iff.mpr (by decide)

theorem replicate_of_unusable {n : Float} (h : Unusable n) (x : Value) :
    replicate n x = .error (.of (.unusableBound (numberText n))) := by
  rw [replicate, range_of_unusable_high not_unusable_zero h]
  rfl

theorem replicate_of_usable {n : Float} {q : ℚ} (hn : Denotes n q) (hq : |q| < 2 ^ 53)
    (x : Value) :
    replicate n x = .ok (ofList (List.replicate (max 0 (⌊q⌋ + 1)).toNat x)) := by
  obtain ⟨taken, htaken, -, hok⟩ := exists_range_eq denotes_zero (by norm_num) hn hq
  have hlength := htaken.length_eq hn (lt_of_le_of_lt (le_abs_self q) hq)
  have hmap := map_pure_ofList (m := Outcome) (fun _ => x) (taken.reverse.map .number)
  rw [List.map_const', List.length_map, List.length_reverse] at hmap
  rw [replicate, hok, ← hlength, Int.toNat_natCast]
  exact hmap

/-- A value is repeated as often as there are natural numbers up to the given one, and each copy is
    the value itself. The number is refused, under its own text, exactly if it is NaN, infinite or of
    a magnitude of `2 ^ 53` or more. -/
theorem replicate_count (n : Float) (x : Value) :
    (replicate n x = .error (.of (.unusableBound (numberText n))) ↔ Unusable n) ∧
      (¬ Unusable n → ∃ q, Denotes n q ∧
        replicate n x = .ok (ofList (List.replicate (max 0 (⌊q⌋ + 1)).toNat x))) := by
  have hcopies (h : ¬ Unusable n) : ∃ q, Denotes n q ∧
      replicate n x = .ok (ofList (List.replicate (max 0 (⌊q⌋ + 1)).toNat x)) := by
    obtain ⟨q, hn, hq⟩ := exists_denotes_of_usable h
    exact ⟨q, hn, replicate_of_usable hn hq x⟩
  refine ⟨⟨fun h => ?_, fun h => replicate_of_unusable h x⟩, hcopies⟩
  by_contra husable
  obtain ⟨q, -, hok⟩ := hcopies husable
  rw [hok] at h
  cases h

/-- The fraction of `5 / 2` does not count, and `2 ^ 53` is just too large. -/
theorem replicate_count_fraction :
    replicate 9007199254740992 (.text "a") = .error (.of (.unusableBound "9007199254740992")) ∧
      replicate 2.5 (.text "a") = .ok (ofList [.text "a", .text "a", .text "a"]) := by
  constructor
  · rw [← numberText_boundLimit]
    exact (replicate_count 9007199254740992 (.text "a")).1.mpr (isBound_eq_false_iff.mp (by decide))
  · have hhalf : Denotes 2.5 (5 / 2) :=
      ⟨⟨false, 5 * 2 ^ 50, -51⟩, rfl, by norm_num [BinaryNumber.value]⟩
    obtain ⟨q, hq, hok⟩ := (replicate_count 2.5 (.text "a")).2 (not_unusable_iff.mpr (by decide))
    obtain rfl := hq.unique hhalf
    have hfloor : ⌊(5 / 2 : ℚ)⌋ = 2 := by norm_num
    rw [hok, hfloor]
    rfl

-- The lower zero is not below the other one, so there is one copy.
example : replicate (-0.0) (.text "a") = .ok (ofList [.text "a"]) := rfl

end Sequence

end TaggedEval
