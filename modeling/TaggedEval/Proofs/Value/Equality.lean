import TaggedEval.Value.Equality

/-!
# Equality by pending pairs and by recursion

The comparison with a list of pending pairs asks of each pair what `Value.equal` says by recursion
(`agree_eq_all`), so `==` is `Value.equal` (`beq_eq_equal`).
-/

namespace TaggedEval

namespace Value

/-- A round answers for all pending pairs, or leaves pairs that are all equal if these are. -/
theorem elim_agreeStep (pairs : List (Value × Value)) :
    (agreeStep pairs).elim id (fun next => next.all fun p => equal p.1 p.2) =
      pairs.all fun p => equal p.1 p.2 := by
  fun_cases agreeStep pairs with
  | case1 => rfl
  | case2 x y rest hxy => simp [equal, hxy]
  | case3 x y rest hxy => simp [equal, hxy]
  | case4 s t rest hst => simp_all [equal]
  | case5 s t rest hst => simp_all [equal]
  | case6 t xs u ys rest h =>
    -- The fields come first, but all pairs have to agree in the end.
    obtain ⟨htag, hlength⟩ := Bool.and_eq_true_iff.mp h
    rw [Sum.elim_inr, List.all_append, List.all_reverse, List.all_cons, equal, equalAll_eq, htag,
      hlength]
    simp
  | case7 t xs u ys rest h =>
    rw [List.all_cons, equal, equalAll_eq, ← Bool.and_assoc, Bool.not_eq_true _ |>.mp h]
    simp
  | case8 p rest hnumber htext htagged =>
    obtain ⟨v, w⟩ := p
    have hdiffer : equal v w = false := by
      cases v with
      | number x =>
        cases w with
        | number y => exact absurd rfl (hnumber x y)
        | _ => rfl
      | text s =>
        cases w with
        | text t => exact absurd rfl (htext s t)
        | _ => rfl
      | tagged t xs =>
        cases w with
        | tagged u ys => exact absurd rfl (htagged t xs u ys)
        | _ => rfl
    simp [hdiffer]

theorem agree_eq_all (pairs : List (Value × Value)) :
    agree pairs = pairs.all fun p => equal p.1 p.2 := by
  fun_induction agree pairs with
  | case1 pairs answer h => rw [← elim_agreeStep, h, Sum.elim_inl, id]
  | case2 pairs next h ih => rw [ih, ← elim_agreeStep pairs, h, Sum.elim_inr]

theorem beq_eq_equal (v w : Value) : (v == w) = equal v w := by
  show agree [(v, w)] = equal v w
  rw [agree_eq_all]
  simp

end Value

end TaggedEval
