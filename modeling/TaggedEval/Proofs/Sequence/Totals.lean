import Mathlib
import TaggedEval.Proofs.Number.Sign
import TaggedEval.Proofs.Sequence.Spine
import TaggedEval.Sequence.Arithmetic

/-!
# Sums and products

A total goes along a chain of cells once. So the first head that is no number is reported, also if
the chain is no list, and the end is looked at only after the last head. The arithmetic rounds, but
a bound on the magnitudes of all the terms is a bound on every intermediate total in every order of
them. Below it each step is exact, and its sign is known, so that all orders end in the same double.
-/

namespace TaggedEval

namespace Sequence

open Float.Model.UnpackedFloat (Sign)

def isNumber : Value → Bool
  | .number _ => true
  | _ => false

theorem toNumber_of_not_number {v : Value} (h : isNumber v = false) :
    v.toNumber = .error (v.mismatch "Num") := by
  cases v with
  | number x => simp [isNumber] at h
  | text s => rfl
  | tagged tag fields => rfl

theorem eq_number_of_isNumber {v : Value} (h : isNumber v = true) : ∃ x, v = .number x := by
  cases v with
  | number x => exact ⟨x, rfl⟩
  | text s => cases h
  | tagged tag fields => cases h

theorem exists_numbers {vs : List Value} (h : ∀ v ∈ vs, isNumber v = true) :
    ∃ nums : List Float, vs = nums.map .number := by
  have hrange : vs ∈ Set.range (List.map Value.number) := by
    rw [Set.range_list_map]
    intro v hv
    obtain ⟨x, rfl⟩ := eq_number_of_isNumber (h v hv)
    exact ⟨x, rfl⟩
  obtain ⟨nums, rfl⟩ := hrange
  exact ⟨nums, rfl⟩

/-- There are only numbers in front of the first head that is no number. -/
theorem exists_numbers_of_find?_eq_some {heads : List Value} {v : Value}
    (h : heads.find? (!isNumber ·) = some v) :
    ∃ (nums : List Float) (after : List Value),
      heads = nums.map .number ++ v :: after ∧ isNumber v = false := by
  obtain ⟨hv, before, after, rfl, hbefore⟩ := List.find?_eq_some_iff_append.mp h
  obtain ⟨nums, rfl⟩ := exists_numbers fun w hw => by simpa using hbefore w hw
  exact ⟨nums, after, rfl, by simpa using hv⟩

theorem exists_numbers_of_find?_eq_none {heads : List Value}
    (h : heads.find? (!isNumber ·) = none) : ∃ nums : List Float, heads = nums.map .number :=
  exists_numbers fun v hv => by simpa using List.find?_eq_none.mp h v hv

/-! ## One pass -/

section Pass

variable (op : Float → Float → Float) (init : Float)

/-- The numbers of a list, put together one by one. -/
def total (xs : Value) : Outcome Value :=
  Value.number <$> foldl (fun x acc => do return op (← x.toNumber) acc) init xs

theorem sum_eq_total : sum = total (· + ·) 0 := rfl

theorem product_eq_total : product = total (· * ·) 1 := rfl

/-- The numbers in front of a tail only change the accumulator. -/
theorem foldl_numbers (nums : List Float) (tail : Value) :
    (foldl (fun x acc => do return op (← x.toNumber) acc) init (chain (nums.map .number) tail) :
        Outcome Float) =
      foldl (fun x acc => do return op (← x.toNumber) acc)
        (nums.foldl (fun acc x => op x acc) init) tail := by
  induction nums generalizing init with
  | nil => rfl
  | cons x nums ih => exact ih (op x init)

theorem total_of_not_number (nums : List Float) {v : Value} (hv : isNumber v = false)
    (after : List Value) (stop : Value) :
    total op init (chain (nums.map .number ++ v :: after) stop) = .error (v.mismatch "Num") := by
  rw [total, chain_append, foldl_numbers, chain_cons, foldl_cons, toNumber_of_not_number hv]
  rfl

theorem total_of_not_list (nums : List Float) {stop : Value} (hcell : isCell stop = false)
    (hnil : stop ≠ .nil) :
    total op init (chain (nums.map .number) stop) = .error (stop.mismatch "List") := by
  rw [total, foldl_numbers, foldl_of_not_list _ _ hcell hnil]
  rfl

theorem total_ofList (nums : List Float) :
    total op init (ofList (nums.map .number)) =
      .ok (.number (nums.foldl (fun acc x => op x acc) init)) := by
  rw [total, ofList_eq_chain, foldl_numbers]
  rfl

end Pass

/-! ## Exact totals -/

/-- `nums` are doubles that stand for the integers `ks`. -/
def Integers (nums : List Float) (ks : List ℤ) : Prop :=
  List.Forall₂ (fun x (k : ℤ) => Denotes x k) nums ks

-- The bound is on the total so far and on every term that is still to be added, so it does not
-- depend on the order of the terms. The sign has to be carried along for totals that are zero.
theorem Integers.sum {nums : List Float} {ks : List ℤ} (h : Integers nums ks) {t : Float} {a : ℤ}
    (ht : Denotes t a) (hsign : signOf t = numberSign a) (hbudget : |a| + (ks.map abs).sum ≤ 2 ^ 53) :
    Denotes (nums.foldl (fun acc x => x + acc) t) ↑(ks.sum + a) ∧
      signOf (nums.foldl (fun acc x => x + acc) t) = numberSign ↑(ks.sum + a) := by
  induction h generalizing t a with
  | nil =>
    rw [List.sum_nil, zero_add]
    exact ⟨ht, hsign⟩
  | @cons x k nums ks hx _ ih =>
    rw [List.map_cons, List.sum_cons] at hbudget
    have hrest : 0 ≤ (ks.map abs).sum := by
      apply List.sum_nonneg
      simp
    -- The term is paid for once: what is left covers the new total and the terms behind it.
    have htriangle : |k + a| ≤ |k| + |a| := abs_add_le k a
    have hstep : |k + a| ≤ 2 ^ 53 := by omega
    have hnext := ih (hx.add_integer ht hstep) (signOf_add hx ht hstep hsign) (by omega)
    have hsum : ks.sum + (k + a) = (k :: ks).sum + a := by
      rw [List.sum_cons]
      ring
    rw [hsum] at hnext
    exact hnext

/-- The sign of a product is that of its factors, also if it is zero. -/
def signProduct (nums : List Float) (sign : Sign) : Sign :=
  nums.foldl (fun acc x => signOf x * acc) sign

theorem signProduct_perm {nums nums' : List Float} (h : nums.Perm nums') (sign : Sign) :
    signProduct nums sign = signProduct nums' sign := by
  apply h.foldl_eq'
  intro x _ y _ acc
  cases signOf x <;> cases signOf y <;> cases acc <;> rfl

theorem Integers.prod {nums : List Float} {ks : List ℤ} (h : Integers nums ks) {t : Float} {a : ℤ}
    (ht : Denotes t a) (hbudget : |a| * (ks.map (max 1 |·|)).prod ≤ 2 ^ 53) :
    Denotes (nums.foldl (fun acc x => x * acc) t) ↑(ks.prod * a) ∧
      signOf (nums.foldl (fun acc x => x * acc) t) = signProduct nums (signOf t) := by
  induction h generalizing t a with
  | nil =>
    rw [List.prod_nil, one_mul]
    exact ⟨ht, rfl⟩
  | @cons x k nums ks hx _ ih =>
    rw [List.map_cons, List.prod_cons, ← mul_assoc] at hbudget
    have hrest : 0 < (ks.map (max 1 |·|)).prod := by
      apply List.prod_pos
      simp
    -- A factor of magnitude below one does not give back any of the budget.
    have hle : |k * a| ≤ |a| * max 1 |k| := by
      rw [abs_mul, mul_comm]
      exact mul_le_mul_of_nonneg_left (le_max_right _ _) (abs_nonneg a)
    have hlater : |k * a| * (ks.map (max 1 |·|)).prod ≤ 2 ^ 53 :=
      le_trans (mul_le_mul_of_nonneg_right hle hrest.le) hbudget
    have hstep : |k * a| ≤ 2 ^ 53 :=
      le_trans (le_mul_of_one_le_right (abs_nonneg _) (by omega)) hlater
    have hnext := ih (hx.mul_integer ht hstep) hlater
    have hprod : ks.prod * (k * a) = (k :: ks).prod * a := by
      rw [List.prod_cons]
      ring
    rw [hprod, signOf_mul hx ht (by exact_mod_cast hstep)] at hnext
    exact hnext

theorem Integers.sum_zero {nums : List Float} {ks : List ℤ} (h : Integers nums ks)
    (hbudget : (ks.map abs).sum ≤ 2 ^ 53) :
    Denotes (nums.foldl (fun acc x => x + acc) 0) ks.sum ∧
      signOf (nums.foldl (fun acc x => x + acc) 0) = numberSign ks.sum := by
  have hzero : Denotes 0 ((0 : ℤ) : ℚ) := by
    rw [Int.cast_zero]
    exact denotes_zero
  have hsign : signOf 0 = numberSign ((0 : ℤ) : ℚ) := by
    rw [Int.cast_zero, numberSign_of_nonneg le_rfl]
    rfl
  have htotal := h.sum hzero hsign (by rwa [abs_zero, zero_add])
  rwa [add_zero] at htotal

theorem Integers.prod_one {nums : List Float} {ks : List ℤ} (h : Integers nums ks)
    (hbudget : (ks.map (max 1 |·|)).prod ≤ 2 ^ 53) :
    Denotes (nums.foldl (fun acc x => x * acc) 1) ks.prod ∧
      signOf (nums.foldl (fun acc x => x * acc) 1) = signProduct nums .positive := by
  have hone : Denotes 1 ((1 : ℤ) : ℚ) := by
    rw [Int.cast_one]
    exact denotes_one
  have htotal := h.prod hone (by rwa [abs_one, one_mul])
  rwa [mul_one] at htotal

/-! ## Every order -/

/-- The integers are put into the order of the doubles. -/
theorem Integers.of_perm {nums nums' : List Float} {ks : List ℤ} (h : Integers nums ks)
    (hperm : nums'.Perm nums) : ∃ ks', Integers nums' ks' ∧ ks'.Perm ks :=
  List.perm_comp_forall₂ hperm h

theorem Integers.sum_perm {nums nums' : List Float} {ks : List ℤ} (h : Integers nums ks)
    (hbudget : (ks.map abs).sum ≤ 2 ^ 53) (hperm : nums'.Perm nums) :
    nums'.foldl (fun acc x => x + acc) 0 = nums.foldl (fun acc x => x + acc) 0 := by
  obtain ⟨ks', hks', hkperm⟩ := h.of_perm hperm
  have hbudget' : (ks'.map abs).sum ≤ 2 ^ 53 := by
    rwa [(hkperm.map abs).sum_eq]
  obtain ⟨hdenotes, hsign⟩ := h.sum_zero hbudget
  obtain ⟨hdenotes', hsign'⟩ := hks'.sum_zero hbudget'
  rw [hkperm.sum_eq] at hdenotes' hsign'
  exact hdenotes'.eq_of_sign hdenotes (hsign'.trans hsign.symm)

theorem Integers.prod_perm {nums nums' : List Float} {ks : List ℤ} (h : Integers nums ks)
    (hbudget : (ks.map (max 1 |·|)).prod ≤ 2 ^ 53) (hperm : nums'.Perm nums) :
    nums'.foldl (fun acc x => x * acc) 1 = nums.foldl (fun acc x => x * acc) 1 := by
  obtain ⟨ks', hks', hkperm⟩ := h.of_perm hperm
  have hbudget' : (ks'.map (max 1 |·|)).prod ≤ 2 ^ 53 := by
    rwa [(hkperm.map (max 1 |·|)).prod_eq]
  obtain ⟨hdenotes, hsign⟩ := h.prod_one hbudget
  obtain ⟨hdenotes', hsign'⟩ := hks'.prod_one hbudget'
  rw [hkperm.prod_eq] at hdenotes'
  -- The numbers may be zero, so the signs have to be put into the other order as well.
  rw [signProduct_perm hperm] at hsign'
  exact hdenotes'.eq_of_sign hdenotes (hsign'.trans hsign.symm)

/-- Every order of these elements has the same result, and so has the reversed list. -/
structure OrderFree (op : Value → Outcome Value) (heads : List Value) : Prop where
  permuted : ∀ vs, vs.Perm heads → op (ofList vs) = op (ofList heads)
  reversed : (reverse (ofList heads) >>= op) = op (ofList heads)

theorem orderFree_total {op : Float → Float → Float} {init : Float} {nums : List Float}
    (h : ∀ nums' : List Float, nums'.Perm nums →
      nums'.foldl (fun acc x => op x acc) init = nums.foldl (fun acc x => op x acc) init) :
    OrderFree (total op init) (nums.map .number) where
  permuted := by
    intro vs hvs
    have hmap : Relation.Comp (· = List.map Value.number ·) List.Perm vs nums := by
      rw [List.eq_map_comp_perm]
      exact hvs
    obtain ⟨nums', rfl, hperm⟩ := hmap
    rw [total_ofList, total_ofList, h nums' hperm]
  reversed := by
    rw [reverse_ofList, ← List.map_reverse, total_ofList, ← h _ nums.reverse_perm]
    exact total_ofList op init nums.reverse

/-- The first head that is no number is reported, whatever comes after it; if there is none, an end
    other than `nil` is; otherwise there is a sum and a product. If the numbers are integers and
    their magnitudes add up to at most `2 ^ 53`, the sum is exact and does not depend on their order.
    The same holds of the product, if the magnitudes multiply to at most `2 ^ 53` when those below
    `1` are left out. -/
theorem sum_product_exact (xs : Value) :
    ∃ heads stop, (isCell stop = false ∧ chain heads stop = xs) ∧
      (∀ v, heads.find? (!isNumber ·) = some v →
        sum xs = .error (.of (.wrongKind "Num" v.kind)) ∧
        product xs = .error (.of (.wrongKind "Num" v.kind))) ∧
      (heads.find? (!isNumber ·) = none → stop ≠ .nil →
        sum xs = .error (.of (.wrongKind "List" stop.kind)) ∧
        product xs = .error (.of (.wrongKind "List" stop.kind))) ∧
      (heads.find? (!isNumber ·) = none → stop = .nil →
        ∃ (nums : List Float) (added multiplied : Float),
          heads = nums.map .number ∧
          sum xs = .ok (.number added) ∧
          product xs = .ok (.number multiplied) ∧
          ∀ ks, Integers nums ks →
            ((ks.map abs).sum ≤ 2 ^ 53 → Denotes added ks.sum ∧ OrderFree sum heads) ∧
            ((ks.map (max 1 |·|)).prod ≤ 2 ^ 53 →
              Denotes multiplied ks.prod ∧ OrderFree product heads)) := by
  rw [sum_eq_total, product_eq_total]
  obtain ⟨heads, stop, hcell, rfl⟩ := exists_chain xs
  refine ⟨heads, stop, ⟨hcell, rfl⟩, fun v hv => ?_, fun hnone hnil => ?_, fun hnone hnil => ?_⟩
  · obtain ⟨nums, after, rfl, hnumber⟩ := exists_numbers_of_find?_eq_some hv
    exact ⟨total_of_not_number _ _ nums hnumber after stop,
      total_of_not_number _ _ nums hnumber after stop⟩
  · obtain ⟨nums, rfl⟩ := exists_numbers_of_find?_eq_none hnone
    exact ⟨total_of_not_list _ _ nums hcell hnil, total_of_not_list _ _ nums hcell hnil⟩
  · obtain ⟨nums, rfl⟩ := exists_numbers_of_find?_eq_none hnone
    subst hnil
    refine ⟨nums, _, _, rfl, total_ofList _ _ nums, total_ofList _ _ nums, fun ks hks => ⟨?_, ?_⟩⟩
    · intro hbudget
      exact ⟨(hks.sum_zero hbudget).1, orderFree_total fun _ => hks.sum_perm hbudget⟩
    · intro hbudget
      exact ⟨(hks.prod_one hbudget).1, orderFree_total fun _ => hks.prod_perm hbudget⟩

/-- The lower zero is a factor and a term, and both bounds are reached or nearly so. -/
theorem sum_product_exact_lowerZero :
    ∃ added multiplied,
      sum (ofList [.number (-0.0), .number 9007199254740991, .number (-1)]) =
        .ok (.number added) ∧
      product (ofList [.number (-0.0), .number 9007199254740991, .number (-1)]) =
        .ok (.number multiplied) ∧
      Denotes added 9007199254740990 ∧ Denotes multiplied 0 ∧
      OrderFree sum [.number (-0.0), .number 9007199254740991, .number (-1)] ∧
      OrderFree product [.number (-0.0), .number 9007199254740991, .number (-1)] := by
  have hks : Integers [-0.0, 9007199254740991, -1] [0, 9007199254740991, -1] :=
    .cons ⟨⟨true, 0, 0⟩, rfl, by norm_num [BinaryNumber.value]⟩ <|
    .cons ⟨⟨false, 9007199254740991, 0⟩, rfl, by norm_num [BinaryNumber.value]⟩ <|
    .cons ⟨⟨true, 2 ^ 52, -52⟩, rfl, by norm_num [BinaryNumber.value]⟩ .nil
  obtain ⟨heads, stop, ⟨hcell, hxs⟩, -, -, hlist⟩ :=
    sum_product_exact (ofList [.number (-0.0), .number 9007199254740991, .number (-1)])
  obtain ⟨rfl, rfl⟩ := eq_of_chain_eq hcell rfl hxs
  obtain ⟨nums, added, multiplied, hnums, hsum, hproduct, hexact⟩ := hlist rfl rfl
  obtain rfl : nums = [-0.0, 9007199254740991, -1] := by
    have hinjective : Function.Injective Value.number := fun _ _ h => Value.number.inj h
    exact hinjective.list_map hnums.symm
  obtain ⟨hadded, hmultiplied⟩ := hexact _ hks
  obtain ⟨hdenotes, hfree⟩ := hadded (by decide)
  obtain ⟨hdenotes', hfree'⟩ := hmultiplied (by decide)
  exact ⟨added, multiplied, hsum, hproduct, by simpa using hdenotes, by simpa using hdenotes',
    hfree, hfree'⟩

end Sequence

end TaggedEval
