import TaggedEval.Proofs.Matching.Building

/-!
# Tables that do not fit

Whether a table fits a type is decided before the scrutinee is looked at, so a table that does not
fit is refused on every scrutinee, also on one whose arm is there. If the number of arms is wrong,
the failure lists the constructors that have no arm: those whose tag is not below the number of arms.
-/

namespace TaggedEval

open Sequence (Effect)

namespace Matching

open TypeDeclaration

theorem Misfit.eq_of_count {ty : TypeDeclaration} {arities : List Nat} {failure : Failure}
    (h : Misfit ty arities failure) (hcount : arities.length ≠ ty.size) :
    failure = .of (.wrongArmCount ty.name ty.size arities.length
      ((ty.constructors.drop arities.length).map fun c =>
        c.name ++ " (tag " ++ c.tag.toNat.repr ++ ")")) := by
  cases h with
  | count _ => rfl
  | arity count _ _ _ _ => exact absurd count hcount

/-! ## Constructors without an arm -/

variable {typeName : String} {shapes : List (String × Nat)}

theorem mem_drop_constructors_iff (hsize : shapes.length ≤ UInt32.size) {covered : Nat}
    {c : Constructor} :
    c ∈ (declare typeName shapes).constructors.drop covered ↔
      shapes[c.tag.toNat]? = some (c.name, c.arity) ∧ covered ≤ c.tag.toNat := by
  simp only [List.mem_iff_getElem?, List.getElem?_drop,
    constructors_declare_getElem?_eq_some_iff typeName hsize]
  constructor
  · rintro ⟨i, hshape, htag⟩
    rw [htag]
    exact ⟨hshape, Nat.le_add_right covered i⟩
  · rintro ⟨hshape, hcovered⟩
    refine ⟨c.tag.toNat - covered, ?_⟩
    rw [Nat.add_sub_of_le hcovered]
    exact ⟨hshape, rfl⟩

/-- A typed match refuses a table that does not fit its type, with the same failure on every
    scrutinee, and runs no arm. If the number of arms is wrong, the failure lists the constructors
    whose tag is not below that number, in the order of their tags: as many as there are arms too
    few, and none if there are too many. -/
theorem runTyped_refuses_misfit (typeName : String) (shapes : List (String × Nat))
    (hsize : shapes.length ≤ UInt32.size) {ty : TypeDeclaration}
    (hty : ty = declare typeName shapes) {σ α : Type} (arms : List (Arm (Effect σ) α))
    (hmisfit : arms.map Arm.arity ≠ shapes.map Prod.snd) :
    ∃ failure, Misfit ty (arms.map Arm.arity) failure ∧
      (∀ v s, RunsArms (fun _ => runTyped ty v) arms s [] (.error failure) s) ∧
      (arms.length ≠ shapes.length → ∃ uncovered : List Constructor,
        failure = .of (.wrongArmCount typeName shapes.length arms.length
          (uncovered.map fun c => c.name ++ " (tag " ++ c.tag.toNat.repr ++ ")")) ∧
        (∀ c, c ∈ uncovered ↔
          shapes[c.tag.toNat]? = some (c.name, c.arity) ∧ arms.length ≤ c.tag.toNat) ∧
        (uncovered.Pairwise fun c d => c.tag.toNat < d.tag.toNat) ∧
        (arms.length < shapes.length → shapes.length = arms.length + uncovered.length) ∧
        (shapes.length < arms.length → uncovered = [])) := by
  subst hty
  have hlength : (declare typeName shapes).constructors.length = shapes.length :=
    size_declare typeName shapes
  obtain ⟨failure, hfailure⟩ := exists_misfit (mt fits_declare_iff.mp hmisfit)
  refine ⟨failure, hfailure, fun v => runsArms_of_refuses (.table hfailure), fun hcount => ?_⟩
  refine ⟨(declare typeName shapes).constructors.drop arms.length, ?_,
    fun c => mem_drop_constructors_iff hsize,
    (pairwise_tag_declare typeName hsize).sublist (List.drop_sublist _ _), ?_, ?_⟩
  · rw [hfailure.eq_of_count (by rwa [List.length_map, size_declare]), List.length_map,
      size_declare, name_declare]
  · intro hshort
    rw [List.length_drop, hlength, Nat.add_sub_of_le (Nat.le_of_lt hshort)]
  · intro hlong
    apply List.drop_of_length_le
    rw [hlength]
    exact Nat.le_of_lt hlong

/-- One arm for a type of three constructors: the match is refused on a value of the constructor
    that has an arm as it is on a text. -/
theorem runTyped_refuses_misfit_redeclared :
    redeclared.length ≤ UInt32.size ∧ [0] ≠ redeclared.map Prod.snd ∧
    ∀ v ∈ [Value.tagged 0 [], .text "A"],
      RunsArms (σ := Unit) (fun _ => runTyped (declare "T" redeclared) v)
        [.nullary (pure Value.nil)] () []
        (.error (.of (.wrongArmCount "T" 3 1 ["B (tag 1)", "A (tag 2)"]))) () := by
  have hsize : redeclared.length ≤ UInt32.size := by decide
  have hmisfit : [0] ≠ redeclared.map Prod.snd := by decide
  obtain ⟨failure, hfailure, hruns, -⟩ := runTyped_refuses_misfit (σ := Unit) "T" redeclared hsize
    rfl [.nullary (pure Value.nil)] hmisfit
  have hlisted : failure = .of (.wrongArmCount "T" 3 1 ["B (tag 1)", "A (tag 2)"]) :=
    (hfailure.eq_of_count (by decide)).trans (by decide)
  exact ⟨hsize, hmisfit, fun v _ => hlisted ▸ hruns v ()⟩

end Matching

end TaggedEval
