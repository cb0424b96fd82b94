import TaggedEval.Proofs.TypeDeclaration.Tags

/-!
# Building and checking values

A type accepts a value if the tag is declared and the number of fields is the declared one, and it
builds exactly the values that it accepts. The fields themselves are not looked at.
-/

namespace TaggedEval

namespace TypeDeclaration

/-! ## Checking -/

variable {ty : TypeDeclaration} {tag : UInt32} {c : Constructor}

theorem constructorOf_of_unknown (h : ty.constructor? tag = none) (args : List Value) :
    ty.constructorOf (.tagged tag args) = .error (ty.unknownTag tag) := by
  simp only [constructorOf, h]

theorem constructorOf_of_known (h : ty.constructor? tag = some c) (args : List Value) :
    ty.constructorOf (.tagged tag args) =
      if c.arity = args.length then .ok c else .error (wrongArity c args.length) := by
  simp only [constructorOf, h]

theorem constructorOf_tagged_eq_ok_iff {args : List Value} :
    ty.constructorOf (.tagged tag args) = .ok c ↔
      ty.constructor? tag = some c ∧ c.arity = args.length := by
  cases hc : ty.constructor? tag with
  | none =>
    rw [constructorOf_of_unknown hc]
    simp
  | some d =>
    rw [constructorOf_of_known hc, Option.some_inj]
    by_cases harity : d.arity = args.length
    · rw [if_pos harity, Except.ok.injEq]
      constructor
      · rintro rfl
        exact ⟨rfl, harity⟩
      · exact And.left
    · rw [if_neg harity]
      constructor
      · intro h
        cases h
      · rintro ⟨rfl, h⟩
        exact absurd h harity

theorem exists_tagged_of_constructorOf {v : Value} (h : ty.constructorOf v = .ok c) :
    ∃ tag args, v = .tagged tag args := by
  cases v with
  | number x => cases h
  | text s => cases h
  | tagged tag args => exact ⟨tag, args, rfl⟩

theorem cause_ne_wrongKind_of_constructorOf {args : List Value} {failure : Failure}
    (h : ty.constructorOf (.tagged tag args) = .error failure) (expected got : String) :
    failure.cause ≠ .wrongKind expected got := by
  cases hc : ty.constructor? tag with
  | none =>
    rw [constructorOf_of_unknown hc] at h
    cases h
    exact Cause.noConfusion
  | some c =>
    rw [constructorOf_of_known hc] at h
    by_cases harity : c.arity = args.length
    · rw [if_pos harity] at h
      cases h
    · rw [if_neg harity] at h
      cases h
      exact Cause.noConfusion

/-! ## Building -/

/-- Building a value and checking the value that would be built are the same test. -/
theorem make_eq_map_constructorOf (ty : TypeDeclaration) (tag : UInt32) (args : List Value) :
    ty.make tag args = (fun _ => .tagged tag args) <$> ty.constructorOf (.tagged tag args) := by
  unfold make
  cases hc : ty.constructor? tag with
  | none =>
    rw [constructorOf_of_unknown hc]
    rfl
  | some c =>
    rw [constructorOf_of_known hc]
    by_cases harity : c.arity = args.length
    · simp only [if_pos harity, if_pos harity.symm]
      rfl
    · simp only [if_neg harity, if_neg (Ne.symm harity)]
      rfl

theorem make_eq_error_iff {ty : TypeDeclaration} {tag : UInt32} {args : List Value}
    {failure : Failure} :
    ty.make tag args = .error failure ↔ ty.constructorOf (.tagged tag args) = .error failure := by
  rw [make_eq_map_constructorOf]
  cases ty.constructorOf (.tagged tag args) <;> simp

theorem make_eq_ok_iff {ty : TypeDeclaration} {tag : UInt32} {args : List Value} {v : Value} :
    ty.make tag args = .ok v ↔
      v = .tagged tag args ∧ ∃ c, ty.constructorOf (.tagged tag args) = .ok c := by
  rw [make_eq_map_constructorOf]
  cases ty.constructorOf (.tagged tag args) <;> simp [eq_comm]

theorem exists_constructorOf_iff_exists_make {ty : TypeDeclaration} {v : Value} :
    (∃ c, ty.constructorOf v = .ok c) ↔ ∃ tag args, ty.make tag args = .ok v := by
  constructor
  · rintro ⟨c, hc⟩
    obtain ⟨tag, args, rfl⟩ := exists_tagged_of_constructorOf hc
    exact ⟨tag, args, make_eq_ok_iff.mpr ⟨rfl, c, hc⟩⟩
  · rintro ⟨tag, args, hmake⟩
    obtain ⟨rfl, hc⟩ := make_eq_ok_iff.mp hmake
    exact hc

/-! ## Types as they are declared -/

variable {typeName : String} {shapes : List (String × Nat)}

theorem make_declare_eq_ok_iff {tag : UInt32} {args : List Value} {v : Value} :
    (declare typeName shapes).make tag args = .ok v ↔
      v = .tagged tag args ∧ ∃ name, shapes[tag.toNat]? = some (name, args.length) := by
  rw [make_eq_ok_iff]
  apply and_congr_right'
  constructor
  · rintro ⟨c, hc⟩
    obtain ⟨hdeclared, harity⟩ := constructorOf_tagged_eq_ok_iff.mp hc
    rw [constructor?_declare, Option.map_eq_some_iff] at hdeclared
    obtain ⟨⟨name, arity⟩, hshape, rfl⟩ := hdeclared
    cases harity
    exact ⟨name, hshape⟩
  · rintro ⟨name, hshape⟩
    refine ⟨⟨name, tag, args.length⟩, constructorOf_tagged_eq_ok_iff.mpr ⟨?_, rfl⟩⟩
    rw [constructor?_declare, hshape, Option.map_some]

theorem makeNamed_of_tagOf? {ty : TypeDeclaration} {name : String} {tag : UInt32}
    (h : ty.tagOf? name = some tag) (args : List Value) :
    ty.makeNamed name args = ty.make tag args := by
  simp only [makeNamed, h]

theorem makeNamed_declare_of_not_mem {name : String} (h : name ∉ shapes.map Prod.fst)
    (args : List Value) :
    (declare typeName shapes).makeNamed name args =
      .error (.of (.unknownConstructor typeName name)) := by
  simp only [makeNamed, tagOf?_declare_of_not_mem typeName shapes h, name_declare]

end TypeDeclaration

end TaggedEval
