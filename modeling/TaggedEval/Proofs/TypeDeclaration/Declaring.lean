import Mathlib.Order.Bounds.Basic
import TaggedEval.TypeDeclaration.Index
import TaggedEval.Proofs.TypeDeclaration.Tags

/-!
# Declaring one constructor after the other

Every declaration adds a constructor behind the ones that are there, so what was looked up before
has the same answer afterwards. The table of names is kept in step with the constructors
(`IndexedDeclaration.Consistent`): a repeated name takes a tag and is not entered again, as the list
of constructors still finds it at its first position.
-/

namespace TaggedEval

/-! ## The table of names -/

namespace IndexedDeclaration

open TypeDeclaration (tagAt tagOf?_addConstructor)

/-- The table answers for every name what the list of constructors answers. -/
def Consistent (d : IndexedDeclaration) : Prop :=
  ∀ name, d.tags[name]? = d.type.tagOf? name

theorem consistent_new (typeName : String) : (new typeName).Consistent :=
  fun _ => Std.HashMap.getElem?_empty

theorem Consistent.addConstructor {d : IndexedDeclaration} (h : d.Consistent) (name : String)
    (arity : Nat) : (d.addConstructor name arity).Consistent := by
  intro x
  show (d.tags.insertIfNew name (tagAt d.type.size))[x]? =
    (d.type.addConstructor name arity).tagOf? x
  rw [Std.HashMap.getElem?_insertIfNew, tagOf?_addConstructor, h x]
  by_cases hname : name = x
  · -- The new tag is entered only if the name had none, and found only then.
    subst hname
    have hentered : name ∈ d.tags ↔ (d.type.tagOf? name).isSome := by
      rw [Std.HashMap.mem_iff_isSome_getElem?, h name]
    simp only [hentered]
    cases d.type.tagOf? name <;> simp
  · simp [hname]

variable (typeName : String) (shapes : List (String × Nat))

theorem declare_append_singleton (shape : String × Nat) :
    declare typeName (shapes ++ [shape]) =
      (declare typeName shapes).addConstructor shape.1 shape.2 := by
  rw [declare, List.foldl_append]
  rfl

theorem type_declare :
    (declare typeName shapes).type = TypeDeclaration.declare typeName shapes := by
  induction shapes using List.reverseRecOn with
  | nil => rfl
  | append_singleton shapes shape ih =>
    rw [declare_append_singleton, TypeDeclaration.declare_append_singleton, ← ih]
    rfl

-- Each declaration is the last one of the list so far, so the induction is from the end.
theorem consistent_declare : (declare typeName shapes).Consistent := by
  induction shapes using List.reverseRecOn with
  | nil => exact consistent_new typeName
  | append_singleton shapes shape ih =>
    rw [declare_append_singleton]
    exact ih.addConstructor shape.1 shape.2

end IndexedDeclaration

/-! ## Tags of names -/

namespace TypeDeclaration

variable {shapes : List (String × Nat)} {name : String}

theorem isLeast_idxOf {names : List String} (h : name ∈ names) :
    IsLeast {i | names[i]? = some name} (names.idxOf name) := by
  refine ⟨List.getElem?_idxOf h, fun i hi => ?_⟩
  by_contra hlt
  have hother := List.not_of_lt_findIdx (Nat.not_le.mp hlt)
  obtain ⟨hlength, hname⟩ := List.getElem?_eq_some_iff.mp hi
  rw [hname] at hother
  simp at hother

theorem tagOf?_declare_eq_some_iff (typeName : String) (hsize : shapes.length ≤ UInt32.size)
    {tag : UInt32} :
    (declare typeName shapes).tagOf? name = some tag ↔
      IsLeast {i | (shapes.map Prod.fst)[i]? = some name} tag.toNat := by
  by_cases hmem : name ∈ shapes.map Prod.fst
  · have hleast := isLeast_idxOf hmem
    have hposition : (shapes.map Prod.fst).idxOf name < UInt32.size := by
      have hlt := List.idxOf_lt_length_of_mem hmem
      rw [List.length_map] at hlt
      exact Nat.lt_of_lt_of_le hlt hsize
    rw [tagOf?_declare_of_mem typeName shapes hmem, Option.some_inj, ← UInt32.toNat_inj,
      toNat_tagAt hposition]
    exact ⟨fun h => h ▸ hleast, fun h => hleast.unique h⟩
  · rw [tagOf?_declare_of_not_mem typeName shapes hmem]
    simp only [reduceCtorEq, false_iff]
    intro h
    exact hmem (List.mem_of_getElem? h.1)

theorem tagOf?_declare_eq_none_iff (typeName : String) :
    (declare typeName shapes).tagOf? name = none ↔ name ∉ shapes.map Prod.fst := by
  rw [tagOf?_declare, ite_eq_right_iff]
  simp only [reduceCtorEq, imp_false]

/-- A name stands for the constructor at the first position at which it was declared. -/
theorem constructor?_of_tagOf?_declare {typeName : String} (hsize : shapes.length ≤ UInt32.size)
    {tag : UInt32} (h : (declare typeName shapes).tagOf? name = some tag) :
    ∃ arity, (declare typeName shapes).constructor? tag = some ⟨name, tag, arity⟩ := by
  have hfirst : (shapes.map Prod.fst)[tag.toNat]? = some name :=
    ((tagOf?_declare_eq_some_iff typeName hsize).mp h).1
  rw [List.getElem?_map, Option.map_eq_some_iff] at hfirst
  obtain ⟨⟨_, arity⟩, hshape, rfl⟩ := hfirst
  exact ⟨arity, by rw [constructor?_declare, hshape, Option.map_some]⟩

theorem tagOf?_addConstructor_of_mem (typeName x : String) (arity : Nat)
    (h : name ∈ shapes.map Prod.fst) :
    ((declare typeName shapes).addConstructor x arity).tagOf? name =
      (declare typeName shapes).tagOf? name := by
  rw [tagOf?_addConstructor, tagOf?_declare_of_mem typeName shapes h, Option.some_or]

theorem tagOf?_addConstructor_of_not_mem (typeName x : String) (arity : Nat)
    (h : name ∉ shapes.map Prod.fst) :
    ((declare typeName shapes).addConstructor x arity).tagOf? name =
      if name = x then some (tagAt shapes.length) else none := by
  rw [tagOf?_addConstructor, tagOf?_declare_of_not_mem typeName shapes h, Option.none_or,
    size_declare]
  simp only [eq_comm]

/-- Tags are positions. The constructors are listed in the order of their declaration, each with its
    position as its tag; a tag stands for the shape declared at that position, and a name has the
    least tag of a shape of that name, in the list of constructors and in the table of names. One
    more constructor changes no answer for a tag or a name that was declared, and of the other names
    it gives a tag to its own only. -/
theorem tags_are_positions (typeName : String) (shapes : List (String × Nat))
    (hsize : shapes.length ≤ UInt32.size) {ty : TypeDeclaration}
    (hty : ty = declare typeName shapes) :
    (∀ (position : Nat) (c : Constructor), ty.constructors[position]? = some c ↔
      shapes[position]? = some (c.name, c.arity) ∧ c.tag.toNat = position) ∧
    (∀ tag, ty.constructor? tag =
      shapes[tag.toNat]?.map fun shape => ⟨shape.1, tag, shape.2⟩) ∧
    (∀ name tag, ty.tagOf? name = some tag ↔
      IsLeast {i | (shapes.map Prod.fst)[i]? = some name} tag.toNat) ∧
    (∀ name, ty.tagOf? name = none ↔ name ∉ shapes.map Prod.fst) ∧
    (∀ name tag, ty.tagOf? name = some tag →
      ∃ arity, ty.constructor? tag = some ⟨name, tag, arity⟩) ∧
    (∀ name, (IndexedDeclaration.declare typeName shapes).tags[name]? = ty.tagOf? name) ∧
    ∀ name arity,
      (∀ tag : UInt32, tag.toNat < shapes.length →
        (ty.addConstructor name arity).constructor? tag = ty.constructor? tag) ∧
      (∀ x ∈ shapes.map Prod.fst, (ty.addConstructor name arity).tagOf? x = ty.tagOf? x) ∧
      ∀ x, x ∉ shapes.map Prod.fst → (ty.addConstructor name arity).tagOf? x =
        if x = name then some (tagAt shapes.length) else none := by
  subst hty
  refine ⟨fun _ _ => constructors_declare_getElem?_eq_some_iff typeName hsize,
    constructor?_declare typeName shapes, fun _ _ => tagOf?_declare_eq_some_iff typeName hsize,
    fun _ => tagOf?_declare_eq_none_iff typeName,
    fun _ _ => constructor?_of_tagOf?_declare hsize, fun name => ?_, fun name arity => ⟨?_, ?_, ?_⟩⟩
  · rw [IndexedDeclaration.consistent_declare typeName shapes name, IndexedDeclaration.type_declare]
  · intro tag htag
    exact constructor?_addConstructor _ name arity (size_declare typeName shapes ▸ htag)
  · intro x hx
    exact tagOf?_addConstructor_of_mem typeName name arity hx
  · intro x hx
    exact tagOf?_addConstructor_of_not_mem typeName name arity hx

/-- The first and the last of these constructors have the same name. -/
def repeatedLeaf : List (String × Nat) :=
  [("Leaf", 0), ("Node", 2), ("Leaf", 1)]

/-- The repeated name keeps tag 0, the constructor that repeats it has tag 2, and a new name takes
    tag 3. -/
theorem tags_are_positions_repeatedLeaf :
    repeatedLeaf.length ≤ UInt32.size ∧
    (declare "Tree" repeatedLeaf).tagOf? "Leaf" = some 0 ∧
    (declare "Tree" repeatedLeaf).constructor? 2 = some ⟨"Leaf", 2, 1⟩ ∧
    (IndexedDeclaration.declare "Tree" repeatedLeaf).tags["Leaf"]? = some 0 ∧
    ((declare "Tree" repeatedLeaf).addConstructor "Branch" 3).tagOf? "Leaf" = some 0 ∧
    ((declare "Tree" repeatedLeaf).addConstructor "Branch" 3).tagOf? "Branch" = some 3 := by
  have hsize : repeatedLeaf.length ≤ UInt32.size := by decide
  obtain ⟨-, htag, hname, -, -, htable, hnext⟩ :=
    tags_are_positions "Tree" repeatedLeaf hsize rfl
  obtain ⟨-, hkept, hnew⟩ := hnext "Branch" 3
  have hleaf : (declare "Tree" repeatedLeaf).tagOf? "Leaf" = some 0 :=
    (hname "Leaf" 0).mpr ⟨rfl, fun _ _ => Nat.zero_le _⟩
  refine ⟨hsize, hleaf, htag 2, (htable "Leaf").trans hleaf, ?_, ?_⟩
  · exact (hkept "Leaf" (by decide)).trans hleaf
  · exact hnew "Branch" (by decide)

end TypeDeclaration

end TaggedEval
