import Mathlib.Data.List.Basic
import Mathlib.Data.List.Induction
import TaggedEval.TypeDeclaration

/-!
# Tags by order of declaration

A declaration keeps its constructors in a list, and a tag is looked up as a position in that list.
So the constructor with tag `t` is the shape declared at position `t`, and a name has the tag of the
first position at which it was declared.
-/

namespace TaggedEval

namespace TypeDeclaration

/-! ## Tags and positions -/

theorem toNat_tagAt {position : Nat} (h : position < UInt32.size) :
    (tagAt position).toNat = position := by
  have hmin : min position (UInt32.size - 1) = position := by
    apply Nat.min_eq_left
    omega
  rw [tagAt, hmin]
  exact UInt32.toNat_ofNat_of_lt h

theorem tagAt_toNat (tag : UInt32) : tagAt tag.toNat = tag := by
  apply UInt32.toNat_inj.mp
  apply toNat_tagAt
  exact tag.toNat_lt

/-! ## One more constructor -/

theorem constructor?_addConstructor (ty : TypeDeclaration) (name : String) (arity : Nat)
    {tag : UInt32} (h : tag.toNat < ty.size) :
    (ty.addConstructor name arity).constructor? tag = ty.constructor? tag :=
  List.getElem?_append_left h

theorem tagOf?_addConstructor (ty : TypeDeclaration) (name : String) (arity : Nat) (x : String) :
    (ty.addConstructor name arity).tagOf? x =
      (ty.tagOf? x).or (if name = x then some (tagAt ty.size) else none) := by
  rw [tagOf?, addConstructor, List.find?_append, Option.map_or, tagOf?, List.find?_singleton]
  by_cases hname : name = x
  · simp [hname, size]
  · simp [hname]

/-! ## What was declared -/

variable (typeName : String) (shapes : List (String × Nat))

theorem declare_append_singleton (shape : String × Nat) :
    declare typeName (shapes ++ [shape]) =
      (declare typeName shapes).addConstructor shape.1 shape.2 := by
  rw [declare, List.foldl_append]
  rfl

@[simp] theorem name_declare : (declare typeName shapes).name = typeName := by
  induction shapes using List.reverseRecOn with
  | nil => rfl
  | append_singleton shapes shape ih =>
    rw [declare_append_singleton]
    exact ih

theorem constructors_declare :
    (declare typeName shapes).constructors =
      shapes.mapIdx fun position shape => ⟨shape.1, tagAt position, shape.2⟩ := by
  induction shapes using List.reverseRecOn with
  | nil => rfl
  | append_singleton shapes shape ih =>
    rw [declare_append_singleton, List.mapIdx_concat, ← ih]
    -- The new constructor has the tag of the first free position.
    have hlength : (declare typeName shapes).constructors.length = shapes.length := by
      rw [ih, List.length_mapIdx]
    rw [addConstructor, hlength]

@[simp] theorem size_declare : (declare typeName shapes).size = shapes.length := by
  rw [size, constructors_declare, List.length_mapIdx]

theorem map_arity_declare :
    (declare typeName shapes).constructors.map Constructor.arity = shapes.map Prod.snd := by
  rw [constructors_declare]
  apply List.ext_getElem?
  intro position
  rw [List.getElem?_map, List.getElem?_mapIdx, List.getElem?_map, Option.map_map]
  rfl

theorem constructor?_declare (tag : UInt32) :
    (declare typeName shapes).constructor? tag =
      shapes[tag.toNat]?.map fun shape => ⟨shape.1, tag, shape.2⟩ := by
  rw [constructor?, constructors_declare, List.getElem?_mapIdx, tagAt_toNat]

variable {shapes}

/-- The constructor at a position has the name and the arity declared there, and the position as its
    tag. -/
theorem constructors_declare_getElem?_eq_some_iff (hsize : shapes.length ≤ UInt32.size)
    {position : Nat} {c : Constructor} :
    (declare typeName shapes).constructors[position]? = some c ↔
      shapes[position]? = some (c.name, c.arity) ∧ c.tag.toNat = position := by
  rw [constructors_declare, List.getElem?_mapIdx, Option.map_eq_some_iff]
  constructor
  · rintro ⟨⟨name, arity⟩, hshape, rfl⟩
    have hposition := (List.getElem?_eq_some_iff.mp hshape).1
    exact ⟨hshape, toNat_tagAt (Nat.lt_of_lt_of_le hposition hsize)⟩
  · rintro ⟨hshape, rfl⟩
    exact ⟨_, hshape, by rw [tagAt_toNat]⟩

theorem pairwise_tag_declare (hsize : shapes.length ≤ UInt32.size) :
    (declare typeName shapes).constructors.Pairwise fun c d => c.tag.toNat < d.tag.toNat := by
  refine List.pairwise_iff_getElem.mpr fun i j hi hj hij => ?_
  have hfirst := List.getElem?_eq_getElem hi
  have hsecond := List.getElem?_eq_getElem hj
  rw [constructors_declare_getElem?_eq_some_iff typeName hsize] at hfirst hsecond
  rw [hfirst.2, hsecond.2]
  exact hij

variable (shapes)

/-- The tag of a name is the first position at which the name was declared. -/
theorem tagOf?_declare (name : String) :
    (declare typeName shapes).tagOf? name =
      if name ∈ shapes.map Prod.fst then some (tagAt ((shapes.map Prod.fst).idxOf name))
      else none := by
  induction shapes using List.reverseRecOn with
  | nil => rfl
  | append_singleton shapes shape ih =>
    rw [declare_append_singleton, tagOf?_addConstructor, ih, size_declare, List.map_append,
      List.map_singleton]
    -- An earlier declaration of the name is found before the new one.
    by_cases hearlier : name ∈ shapes.map Prod.fst
    · rw [if_pos hearlier, if_pos (List.mem_append_left _ hearlier), Option.some_or,
        List.idxOf_append_of_mem hearlier]
    · rw [if_neg hearlier, Option.none_or, List.idxOf_append_of_notMem hearlier]
      by_cases hname : shape.1 = name
      · simp [hname]
      · simp [hname, Ne.symm hname, hearlier]

theorem tagOf?_declare_of_mem {name : String} (h : name ∈ shapes.map Prod.fst) :
    (declare typeName shapes).tagOf? name = some (tagAt ((shapes.map Prod.fst).idxOf name)) := by
  rw [tagOf?_declare, if_pos h]

theorem tagOf?_declare_of_not_mem {name : String} (h : name ∉ shapes.map Prod.fst) :
    (declare typeName shapes).tagOf? name = none := by
  rw [tagOf?_declare, if_neg h]

end TypeDeclaration

end TaggedEval
