import TaggedEval.Proofs.Sequence.Traversals
import TaggedEval.Proofs.Value.Structure

/-!
# The laws of equality

Equality of values is symmetric and transitive. It is reflexive except where a NaN occurs, at any
depth, so what gives a list back as it is gives back an equal list exactly when the list has no NaN
(`beq_laws`).
-/

namespace TaggedEval

/-! ## Numbers -/

namespace SameNumber

variable {x y z : Float}

theorem symm (h : SameNumber x y) : SameNumber y x := by
  cases h with
  | finite hx hy value => exact .finite hy hx value.symm
  | infinite hx hy => exact .infinite hy hx

theorem not_finite_of_infinity {sign : Float.Model.UnpackedFloat.Sign}
    (h : x.toModel.unpack = .infinity sign)
    (b : BinaryNumber) : BinaryNumber.ofFloat? x ≠ some b := by
  simp [BinaryNumber.ofFloat?, h]

theorem trans (hxy : SameNumber x y) (hyz : SameNumber y z) : SameNumber x z := by
  cases hxy with
  | finite hx hy hvalue =>
    cases hyz with
    | finite hy' hz hvalue' =>
      obtain rfl := Option.some_inj.mp (hy.symm.trans hy')
      exact .finite hx hz (hvalue.trans hvalue')
    | infinite hy' hz => exact absurd hy (not_finite_of_infinity hy' _)
  | infinite hx hy =>
    cases hyz with
    | finite hy' hz hvalue => exact absurd hy' (not_finite_of_infinity hy _)
    | infinite hy' hz =>
      cases hy.symm.trans hy'
      exact .infinite hx hz

theorem self_iff : SameNumber x x ↔ x.isNaN = false := by
  constructor
  · exact fun h => (isNaN_eq_false_of_beq (beq_iff_sameNumber.mpr h)).1
  · exact fun h => beq_iff_sameNumber.mp ((beq_iff_unpack h h).mpr (.inl rfl))

end SameNumber

/-! ## Values -/

namespace Value

theorem same_iff_beq {v w : Value} : Same v w ↔ (v == w) = true := by
  rw [beq_eq_equal, equal_iff_same]

/-- The fields of two tagged values are compared in pairs. -/
theorem same_tagged_iff_forall₂ {t u : UInt32} {xs ys : List Value} :
    Same (.tagged t xs) (.tagged u ys) ↔ t = u ∧ List.Forall₂ Same xs ys := by
  rw [same_tagged_iff, List.forall₂_iff_zip]
  simp only [Prod.forall]

theorem Same.symm {v w : Value} (h : Same v w) : Same w v := by
  induction h with
  | number h => exact .number h.symm
  | text s => exact .text s
  | tagged tag length fields ih =>
    refine .tagged tag length.symm fun p hp => ih p.swap ?_
    rw [← List.zip_swap]
    exact List.mem_map_of_mem hp

/-- Between the fields that are compared with each other there is one of the value between. -/
theorem exists_middle {xs ys zs : List Value} (hlength : xs.length = ys.length) {p : Value × Value}
    (hp : p ∈ xs.zip zs) : ∃ y, (p.1, y) ∈ xs.zip ys ∧ (y, p.2) ∈ ys.zip zs := by
  obtain ⟨i, hi⟩ := List.mem_iff_getElem?.mp hp
  obtain ⟨hx, hz⟩ := List.getElem?_zip_eq_some.mp hi
  have hy : i < ys.length := hlength ▸ (List.getElem?_eq_some_iff.mp hx).1
  refine ⟨ys[i], List.mem_iff_getElem?.mpr ⟨i, ?_⟩, List.mem_iff_getElem?.mpr ⟨i, ?_⟩⟩
  · exact List.getElem?_zip_eq_some.mpr ⟨hx, List.getElem?_eq_getElem hy⟩
  · exact List.getElem?_zip_eq_some.mpr ⟨List.getElem?_eq_getElem hy, hz⟩

theorem Same.trans {u v w : Value} (huv : Same u v) (hvw : Same v w) : Same u w := by
  induction huv generalizing w with
  | number hxy =>
    cases hvw with
    | number hyz => exact .number (hxy.trans hyz)
  | text s => exact hvw
  | tagged tag hlength hfields ih =>
    cases hvw with
    | tagged _ hlength' hfields' =>
      refine .tagged tag (hlength.trans hlength') fun p hp => ?_
      obtain ⟨y, hxy, hyz⟩ := exists_middle hlength hp
      exact ih _ hxy (hfields' _ hyz)

theorem naNFree_number {x : Float} : (Value.number x).NaNFree ↔ x.isNaN = false := by
  simp [NaNFree, parts]

theorem naNFree_text (s : String) : (Value.text s).NaNFree := by
  simp [NaNFree, parts]

theorem same_self_iff {v : Value} : Same v v ↔ v.NaNFree := by
  induction v using Value.induct with
  | number x => rw [same_number_iff, SameNumber.self_iff, naNFree_number]
  | text s => exact iff_of_true (.text s) (naNFree_text s)
  | tagged tag fields ih =>
    rw [same_tagged_iff_forall₂, List.forall₂_same, naNFree_tagged]
    exact (and_iff_right rfl).trans (forall₂_congr ih)

theorem beq_self_iff {v : Value} : (v == v) = true ↔ v.NaNFree := by
  rw [← same_iff_beq, same_self_iff]

theorem beq_comm (v w : Value) : (v == w) = (w == v) := by
  rw [Bool.eq_iff_iff, ← same_iff_beq, ← same_iff_beq]
  exact ⟨Same.symm, Same.symm⟩

/-! ## Lists -/

open Sequence

/-- Equality is symmetric and transitive, and a value equals itself if there is no NaN anywhere in
    it, and only then. To reverse a list twice, or to map the identity over it, gives the list back
    as it is, so whether the result is equal to the list is a matter of NaN as well. -/
theorem beq_laws :
    (∀ v w : Value, (v == w) = (w == v)) ∧
      (∀ u v w : Value, (u == v) = true → (v == w) = true → (u == w) = true) ∧
      (∀ v : Value, (v == v) = true ↔ v.NaNFree) ∧
      ∀ (xs : Value) (vs : List Value), toList xs = .ok vs →
        (∃ ys, (reverse xs >>= reverse) = .ok ys ∧ ((ys == xs) = true ↔ xs.NaNFree)) ∧
        ∃ ys, (map pure xs : Outcome Value) = .ok ys ∧ ((ys == xs) = true ↔ xs.NaNFree) := by
  refine ⟨beq_comm, fun u v w huv hvw => ?_, fun v => beq_self_iff, fun xs vs h => ⟨?_, ?_⟩⟩
  · rw [← same_iff_beq] at huv hvw ⊢
    exact huv.trans hvw
  · obtain rfl := toList_eq_ok_iff.mp h
    have hreverse : (reverse (ofList vs) >>= reverse) = .ok (ofList vs) := by
      rw [reverse_ofList]
      show reverse (ofList vs.reverse) = _
      rw [reverse_ofList, List.reverse_reverse]
    exact ⟨_, hreverse, beq_self_iff⟩
  · obtain rfl := toList_eq_ok_iff.mp h
    have hmap : (map pure (ofList vs) : Outcome Value) = pure (ofList (vs.map id)) :=
      map_pure_ofList id vs
    rw [List.map_id] at hmap
    exact ⟨_, hmap, beq_self_iff⟩

/-- The zeros of both signs inside a value, and a list with a NaN inside its element. -/
theorem beq_laws_zeros_nan :
    (tagged 2 [.number 0.0] == tagged 2 [.number (-0.0)]) = true ∧
      (tagged 2 [.number (-0.0)] == tagged 2 [.number 0.0]) = true ∧
      (tagged 2 [.number 0.0] == tagged 2 [.number 0.0]) = true ∧
      toList (cons (tagged 2 [.number (0 / 0)]) nil) = .ok [tagged 2 [.number (0 / 0)]] ∧
      ∃ ys, (reverse (cons (tagged 2 [.number (0 / 0)]) nil) >>= reverse) = .ok ys ∧
        (ys == cons (tagged 2 [.number (0 / 0)]) nil) = false := by
  have hzeros : (tagged 2 [.number 0.0] == tagged 2 [.number (-0.0)]) = true := by
    rw [beq_eq_equal]
    decide
  have hlist : toList (cons (tagged 2 [.number (0 / 0)]) nil) = .ok [tagged 2 [.number (0 / 0)]] :=
    rfl
  have hswapped := (beq_laws.1 _ _).symm.trans hzeros
  refine ⟨hzeros, hswapped, beq_laws.2.1 _ _ _ hzeros hswapped, hlist, ?_⟩
  obtain ⟨ys, hys, hequal⟩ := (beq_laws.2.2.2 _ _ hlist).1
  refine ⟨ys, hys, eq_false_of_ne_true fun h => ?_⟩
  have hnan := hequal.mp h (0 / 0) (by simp [parts, partsAll, nil])
  exact absurd hnan (by decide)

end Value

end TaggedEval
