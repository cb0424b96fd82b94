import Mathlib.Data.Set.Function
import TaggedEval.Proofs.Sequence.Traversals

/-!
# Lists are sequences of elements

`IsList` says which values are lists, by the shape of their cells alone. `ofList` reaches each of
them from exactly one sequence of elements, which is the one that `toList` collects. A value that is
no list comes from no sequence, and `toList` reports the kind of the value that its chain of cells
ends in.
-/

namespace TaggedEval

namespace Sequence

/-- `nil`, or a cell in front of a list. -/
inductive IsList : Value → Prop
  | nil : IsList .nil
  | cons (head : Value) {tail : Value} (rest : IsList tail) : IsList (.cons head tail)

theorem isList_ofList (vs : List Value) : IsList (ofList vs) := by
  induction vs with
  | nil => exact .nil
  | cons v vs ih => exact .cons v ih

theorem IsList.exists_ofList {xs : Value} (h : IsList xs) : ∃ vs, ofList vs = xs := by
  induction h with
  | nil => exact ⟨[], rfl⟩
  | cons head _ ih =>
    obtain ⟨vs, rfl⟩ := ih
    exact ⟨head :: vs, rfl⟩

theorem bijOn_ofList : Set.BijOn ofList Set.univ {xs | IsList xs} where
  left vs _ := isList_ofList vs
  right := by
    refine ⟨ofList_injective.injOn, fun xs h => ?_⟩
    obtain ⟨vs, hvs⟩ := h.exists_ofList
    exact ⟨vs, Set.mem_univ vs, hvs⟩

theorem ofList_ne_chain (vs heads : List Value) {stop : Value} (hcell : isCell stop = false)
    (hnil : stop ≠ .nil) : ofList vs ≠ chain heads stop := by
  intro h
  rw [ofList_eq_chain] at h
  exact hnil (eq_of_chain_eq rfl hcell h).2.symm

theorem toList_chain_eq_error_iff (heads : List Value) {stop : Value} (hcell : isCell stop = false)
    {failure : Failure} :
    toList (chain heads stop) = .error failure ↔
      (∀ vs, ofList vs ≠ chain heads stop) ∧ failure = stop.mismatch "List" := by
  by_cases hnil : stop = .nil
  · subst hnil
    rw [← ofList_eq_chain, toList_ofList]
    exact ⟨nofun, fun h => absurd rfl (h.1 heads)⟩
  · rw [toList_of_not_list heads hcell hnil, Except.error.injEq, eq_comm]
    exact ⟨fun h => ⟨fun vs => ofList_ne_chain vs heads hcell hnil, h⟩, And.right⟩

/-- Sequences of elements and lists are in bijection, and `toList` is the inverse of `ofList`: it
    gives the elements of a list back as they are and in their order, and the list that is built
    from what it gives is the value itself. It fails exactly on values that are built from no
    sequence, with the kind of the value at the end of the chain of cells. -/
theorem toList_inverts_ofList :
    Set.BijOn ofList Set.univ {xs | IsList xs} ∧
    (∀ vs, toList (ofList vs) = .ok vs) ∧
    (∀ xs vs, toList xs = .ok vs → ofList vs = xs) ∧
    ∀ xs, ∃ heads stop, (isCell stop = false ∧ chain heads stop = xs) ∧
      ∀ failure, toList xs = .error failure ↔
        (∀ vs, ofList vs ≠ xs) ∧ failure = .of (.wrongKind "List" stop.kind) := by
  refine ⟨bijOn_ofList, toList_ofList, fun xs vs h => (toList_eq_ok_iff.mp h).symm, fun xs => ?_⟩
  obtain ⟨heads, stop, hcell, rfl⟩ := exists_chain xs
  exact ⟨heads, stop, ⟨hcell, rfl⟩, fun _ => toList_chain_eq_error_iff heads hcell⟩

-- A cell needs two fields, so this chain ends after its first element.
example : toList (.cons .nil (.tagged 1 [.nil])) = .error (.of (.wrongKind "List" "tag_1_1")) := rfl

end Sequence

end TaggedEval
