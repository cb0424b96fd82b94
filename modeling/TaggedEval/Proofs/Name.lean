import Mathlib.Data.List.Basic
import TaggedEval.Name

/-!
# Listing the names of a table

A table lists its names in strictly ascending order of their bytes, so the list is determined by
which names there are. They may have been kept in any other order before: sorted by their bytes they
are the same list (`NameMap.mergeSort_eq_keys`).
-/

namespace TaggedEval

namespace NameMap

variable {β : Type} (table : NameMap β)

theorem mem_keys_iff {name : String} : name ∈ table.keys ↔ table[name]? ≠ none := by
  rw [Std.TreeMap.mem_keys, Std.TreeMap.mem_iff_isSome_getElem?, Option.isSome_iff_ne_none]

theorem keys_ascending : table.keys.Pairwise fun a b => Name.bytes a < Name.bytes b := by
  have hordered : table.keys.Pairwise fun a b => Name.order a b = .lt := Std.TreeMap.ordered_keys
  exact hordered.imp Name.order_eq_lt.mp

theorem pairwise_mergeSort_names (names : List String) :
    (names.mergeSort fun a b => (Name.order a b).isLE).Pairwise
      fun a b => (Name.order a b).isLE = true := by
  apply List.pairwise_mergeSort
  · intro a b c hab hbc
    exact Std.TransCmp.isLE_trans hab hbc
  · intro a b
    rw [Bool.or_eq_true, or_iff_not_imp_left]
    intro hnot
    rw [Std.OrientedCmp.lt_of_not_isLE hnot]
    rfl

theorem mergeSort_eq_keys {names : List String} (hnodup : names.Nodup)
    (hnames : ∀ name, name ∈ names ↔ name ∈ table.keys) :
    (names.mergeSort fun a b => (Name.order a b).isLE) = table.keys := by
  have hkeys : table.keys.Pairwise fun a b => (Name.order a b).isLE = true := by
    refine table.keys_ascending.imp fun hlt => ?_
    rw [Name.order_eq_lt.mpr hlt]
    rfl
  have hperm : (names.mergeSort fun a b => (Name.order a b).isLE).Perm table.keys :=
    (List.mergeSort_perm names _).trans
      ((List.perm_ext_iff_of_nodup hnodup Std.TreeMap.nodup_keys).mpr hnames)
  -- Two different names are never level in the order, so both lists are sorted in one way only.
  refine hperm.eq_of_pairwise (fun a b _ _ hab hba => ?_) (pairwise_mergeSort_names names) hkeys
  exact Std.LawfulEqCmp.eq_of_compare (Std.OrientedCmp.isLE_antisymm hab hba)

end NameMap

end TaggedEval
