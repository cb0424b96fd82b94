import TaggedEval.Proofs.Matching.Typed

/-!
# Building, checking and matching

The values that a type builds are the values that it accepts, and the typed match on one of them
runs the arm at its tag on the fields it was built from. A constructor is found by its position in
the declaration, whether it is looked up by tag, by name, or as an arm of a table.
-/

namespace TaggedEval

open Sequence (Effect perform)

namespace Matching

open TypeDeclaration

theorem fits_declare_iff {typeName : String} {shapes : List (String × Nat)} {arities : List Nat} :
    Fits (declare typeName shapes) arities ↔ arities = shapes.map Prod.snd := by
  rw [Fits, map_arity_declare]

/-- Building, checking and matching agree on every declared type. A tag and fields are accepted by
    the three in the same cases, those of a declared position with that many fields, and are
    refused by building and checking with the same failure. A name stands for the first position at
    which it was declared. A typed match on what was built runs the arm at its tag, once and on the
    fields it was built from, and ends as that arm does. -/
theorem make_check_match_agree (typeName : String) (shapes : List (String × Nat))
    (hsize : shapes.length ≤ UInt32.size) {ty : TypeDeclaration}
    (hty : ty = declare typeName shapes) :
    (∀ tag args v, ty.make tag args = .ok v ↔
      v = .tagged tag args ∧ ∃ name, shapes[tag.toNat]? = some (name, args.length)) ∧
    (∀ tag args, (∃ v, ty.make tag args = .ok v) ↔
      ∃ c, ty.constructorOf (.tagged tag args) = .ok c) ∧
    (∀ tag args failure, ty.make tag args = .error failure ↔
      ty.constructorOf (.tagged tag args) = .error failure) ∧
    (∀ v, (∃ c, ty.constructorOf v = .ok c) ↔ ∃ tag args, ty.make tag args = .ok v) ∧
    (∀ name ∈ shapes.map Prod.fst, ∃ tag, ty.tagOf? name = some tag ∧
      tag.toNat = (shapes.map Prod.fst).idxOf name ∧
      ∀ args, ty.makeNamed name args = ty.make tag args) ∧
    (∀ name, name ∉ shapes.map Prod.fst → ∀ args,
      ty.makeNamed name args = .error (.of (.unknownConstructor typeName name))) ∧
    ∀ tag args v, ty.make tag args = .ok v →
      ∀ (σ α : Type) (arms : List (Arm (Effect σ) α)),
        arms.map Arm.arity = shapes.map Prod.snd →
        ∃ arm body, arms[tag.toNat]? = some arm ∧ arm.Binds args body ∧
          ∀ s, ∃ outcome s', perform body s = (outcome, s') ∧
            RunsArms (fun _ => runTyped ty v) arms s [(tag.toNat, args)] outcome s' := by
  subst hty
  refine ⟨fun _ _ _ => make_declare_eq_ok_iff, fun tag args => ?_, fun _ _ _ => make_eq_error_iff,
    fun _ => exists_constructorOf_iff_exists_make, fun name hname => ?_,
    fun _ hname args => makeNamed_declare_of_not_mem hname args, ?_⟩
  · simp only [make_eq_ok_iff, exists_eq_left]
  · have htag := tagOf?_declare_of_mem typeName shapes hname
    refine ⟨_, htag, toNat_tagAt ?_, makeNamed_of_tagOf? htag⟩
    have hlt := List.idxOf_lt_length_of_mem hname
    rw [List.length_map] at hlt
    exact Nat.lt_of_lt_of_le hlt hsize
  · intro tag args v hmake σ α arms harities
    obtain ⟨rfl, c, hc⟩ := make_eq_ok_iff.mp hmake
    obtain ⟨arm, body, harm, hbinds, hruns⟩ :=
      exists_runsArms_of_fits (fits_declare_iff.mpr harities) hc
    refine ⟨arm, body, harm, hbinds, fun s => ?_⟩
    obtain ⟨outcome, s', hbody, -, htyped⟩ := hruns s
    exact ⟨outcome, s', hbody, htyped⟩

/-- The name of the first constructor is declared again, for two fields. -/
def redeclared : List (String × Nat) :=
  [("A", 0), ("B", 1), ("A", 2)]

/-- The repeated name builds values of its first constructor, and a value of its second one is
    matched by the third arm. -/
theorem make_check_match_agree_redeclared :
    redeclared.length ≤ UInt32.size ∧
    (declare "T" redeclared).makeNamed "A" [] = (declare "T" redeclared).make 0 [] ∧
    (declare "T" redeclared).make 2 [.nil, .nil] = .ok (.tagged 2 [.nil, .nil]) ∧
    RunsArms (σ := Unit)
      (fun _ => runTyped (declare "T" redeclared) (.tagged 2 [.nil, .nil]))
      [.nullary (throw (.of (.crash "no field"))), .unary pure, .binary fun a _ => pure a]
      () [(2, [.nil, .nil])] (.ok .nil) () := by
  have hsize : redeclared.length ≤ UInt32.size := by decide
  obtain ⟨hmake, -, -, -, hname, -, hmatch⟩ := make_check_match_agree "T" redeclared hsize rfl
  obtain ⟨tag, -, htag, hnamed⟩ := hname "A" (by decide)
  obtain rfl : tag = 0 := UInt32.toNat_inj.mp htag
  have hbuilt := (hmake 2 [.nil, .nil] _).mpr ⟨rfl, "A", rfl⟩
  obtain ⟨arm, body, harm, hbinds, hruns⟩ := hmatch 2 _ _ hbuilt Unit Value
    [.nullary (throw (.of (.crash "no field"))), .unary pure, .binary fun a _ => pure a] rfl
  cases harm
  cases hbinds
  obtain ⟨outcome, s', hbody, hrun⟩ := hruns ()
  cases hbody
  exact ⟨hsize, hnamed [], hbuilt, hrun⟩

end Matching

end TaggedEval
