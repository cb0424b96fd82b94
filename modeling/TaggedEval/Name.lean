import Std.Data.TreeMap

/-!
# Names

Tables that are keyed by names list them in the order of their UTF-8 bytes. `NameMap` is a table in
that order, and `order_eq_lt` says what the order is.
-/

namespace TaggedEval

namespace Name

/-- The UTF-8 encoding of a name. -/
def bytes (name : String) : List UInt8 :=
  name.toUTF8.data.toList

theorem bytes_injective {a b : String} (h : bytes a = bytes b) : a = b := by
  apply String.toByteArray_inj.mp
  apply ByteArray.ext
  exact Array.toList_inj.mp h

/-- Names are compared byte by byte; a proper beginning comes first. -/
def order : String → String → Ordering :=
  compareOn bytes

instance : Std.TransCmp order :=
  inferInstanceAs (Std.TransCmp (compareOn bytes))

instance : Std.LawfulEqCmp order where
  eq_of_compare h := bytes_injective (Std.LawfulEqCmp.eq_of_compare h)

theorem compare_bytes_eq_lt (xs ys : List UInt8) : compare xs ys = .lt ↔ xs < ys := by
  show List.compareLex compare xs ys = .lt ↔ xs < ys
  induction xs generalizing ys with
  | nil => cases ys <;> simp [List.compareLex_nil_nil, List.compareLex_nil_cons]
  | cons x xs ih =>
    cases ys with
    | nil => simp [List.compareLex_cons_nil]
    | cons y ys =>
      rw [List.compareLex_cons_cons, Ordering.then_eq_lt, ih, List.cons_lt_cons_iff,
        Std.compare_eq_lt, Std.LawfulEqCmp.compare_eq_iff_eq]

theorem order_eq_lt {a b : String} : order a b = .lt ↔ bytes a < bytes b :=
  compare_bytes_eq_lt _ _

end Name

/-- A table from names, listed in the order of their bytes. -/
abbrev NameMap (β : Type) : Type :=
  Std.TreeMap String β Name.order

theorem NameMap.getElem?_insert {β : Type} (table : NameMap β) (name other : String) (b : β) :
    (table.insert name b)[other]? = if name = other then some b else table[other]? := by
  simp only [Std.TreeMap.getElem?_insert, Std.LawfulEqCmp.compare_eq_iff_eq]

end TaggedEval
