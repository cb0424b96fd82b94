import TaggedEval.Value.Parts

/-!
# Equality of values

Two values are equal when their trees have the same shape, tags and texts, and equal numbers at the
leaves. Numbers are compared as doubles are: the two zeros are equal, and NaN equals nothing.

`==` keeps the pairs that are still to be compared in a list, so a comparison of deep values needs
no deep call stack. Each round takes off the pair that was put there last. `equal` says the same by
recursion on the value.
-/

namespace TaggedEval

namespace Value

/-! ## Comparison with a list of pending pairs -/

/-- One round of the comparison: the answer, or the pairs that are still pending. The first pair is
    taken off. If it has fields, they are put in front with the last ones first. -/
def agreeStep : List (Value × Value) → Bool ⊕ List (Value × Value)
  | [] => .inl true
  | (.number x, .number y) :: rest => if x == y then .inr rest else .inl false
  | (.text s, .text t) :: rest => if s == t then .inr rest else .inl false
  | (.tagged t xs, .tagged u ys) :: rest =>
    if t == u && xs.length == ys.length then .inr ((xs.zip ys).reverse ++ rest) else .inl false
  | _ :: _ => .inl false

/-- The number of values inside the first sides of pending pairs. -/
def pendingParts (pairs : List (Value × Value)) : Nat :=
  (partsAll (pairs.map Prod.fst)).length

theorem pendingParts_cons (v w : Value) (rest : List (Value × Value)) :
    pendingParts ((v, w) :: rest) = v.parts.length + pendingParts rest := by
  rw [pendingParts, List.map_cons, partsAll, List.length_append, pendingParts]

theorem pendingParts_fields {xs ys : List Value} (h : xs.length = ys.length)
    (rest : List (Value × Value)) :
    pendingParts ((xs.zip ys).reverse ++ rest) = (partsAll xs).length + pendingParts rest := by
  rw [pendingParts, List.map_append, List.map_reverse, List.map_fst_zip (Nat.le_of_eq h),
    partsAll_append, List.length_append, length_partsAll_reverse, pendingParts]

/-- A round that does not end the comparison takes one value off each side. -/
theorem pendingParts_agreeStep {pairs next : List (Value × Value)}
    (h : agreeStep pairs = .inr next) : pendingParts next + 1 = pendingParts pairs := by
  unfold agreeStep at h
  split at h
  · cases h
  · split at h <;> cases h
    simp only [pendingParts_cons, parts, List.length_singleton, Nat.add_comm]
  · split at h <;> cases h
    simp only [pendingParts_cons, parts, List.length_singleton, Nat.add_comm]
  · split at h <;> cases h
    rename_i hsame
    have hlength := (Bool.and_eq_true_iff.mp hsame).2
    rw [pendingParts_fields (beq_iff_eq.mp hlength), pendingParts_cons, parts, List.length_cons]
    omega
  · cases h

/-- Whether all pairs are equal. -/
def agree (pairs : List (Value × Value)) : Bool :=
  match _h : agreeStep pairs with
  | .inl answer => answer
  | .inr next => agree next
termination_by pendingParts pairs
decreasing_by
  have := pendingParts_agreeStep _h
  omega

instance : BEq Value where
  beq v w := agree [(v, w)]

/-! ## Comparison by recursion -/

mutual

/-- Equality by recursion on both values. -/
def equal : Value → Value → Bool
  | .number x, .number y => x == y
  | .text s, .text t => s == t
  | .tagged t xs, .tagged u ys => t == u && equalAll xs ys
  | _, _ => false

/-- Equality of two lists of values, position by position. -/
def equalAll : List Value → List Value → Bool
  | [], [] => true
  | x :: xs, y :: ys => equal x y && equalAll xs ys
  | _, _ => false

end

theorem equalAll_eq (xs ys : List Value) :
    equalAll xs ys = (xs.length == ys.length && (xs.zip ys).all fun p => equal p.1 p.2) := by
  induction xs generalizing ys with
  | nil => cases ys <;> simp [equalAll]
  | cons x xs ih =>
    cases ys with
    | nil => simp [equalAll]
    | cons y ys =>
      simp [equalAll, ih, Bool.and_left_comm]

end Value

end TaggedEval
