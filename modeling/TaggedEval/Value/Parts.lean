import TaggedEval.Value.Basic

/-!
# The values inside a value

`parts` lists a value and all values inside it. Two conditions on every part matter elsewhere: a
value without NaN equals itself, and texts without quotes keep the text of a value unambiguous.
-/

namespace TaggedEval

namespace Value

mutual

/-- A value followed by all values inside it. -/
def parts : Value → List Value
  | .number x => [.number x]
  | .text s => [.text s]
  | .tagged tag fields => .tagged tag fields :: partsAll fields

/-- The parts of several values, one after the other. -/
def partsAll : List Value → List Value
  | [] => []
  | v :: vs => parts v ++ partsAll vs

end

theorem partsAll_append (vs ws : List Value) :
    partsAll (vs ++ ws) = partsAll vs ++ partsAll ws := by
  induction vs with
  | nil => rfl
  | cons v vs ih => rw [List.cons_append, partsAll, ih, partsAll, List.append_assoc]

theorem length_partsAll_reverse (vs : List Value) :
    (partsAll vs.reverse).length = (partsAll vs).length := by
  induction vs with
  | nil => rfl
  | cons v vs ih =>
    rw [List.reverse_cons, partsAll_append, List.length_append, ih, partsAll, partsAll, partsAll,
      List.append_nil, List.length_append, Nat.add_comm]

/-- No number in the value is NaN. -/
def NaNFree (v : Value) : Prop :=
  ∀ x, .number x ∈ v.parts → x.isNaN = false

/-- No text in the value holds a double quote. -/
def QuoteFree (v : Value) : Prop :=
  ∀ s, .text s ∈ v.parts → '"' ∉ s.toList

theorem mem_partsAll {v : Value} {vs : List Value} : v ∈ partsAll vs ↔ ∃ w ∈ vs, v ∈ w.parts := by
  induction vs with
  | nil => simp [partsAll]
  | cons w vs ih => simp [partsAll, ih]

theorem naNFree_tagged {tag : UInt32} {fields : List Value} :
    (Value.tagged tag fields).NaNFree ↔ ∀ v ∈ fields, v.NaNFree := by
  simp only [NaNFree, parts, List.mem_cons, reduceCtorEq, false_or, mem_partsAll]
  exact ⟨fun h v hv x hx => h x ⟨v, hv, hx⟩, fun h x ⟨v, hv, hx⟩ => h v hv x hx⟩

theorem quoteFree_tagged {tag : UInt32} {fields : List Value} :
    (Value.tagged tag fields).QuoteFree ↔ ∀ v ∈ fields, v.QuoteFree := by
  simp only [QuoteFree, parts, List.mem_cons, reduceCtorEq, false_or, mem_partsAll]
  exact ⟨fun h v hv s hs => h s ⟨v, hv, hs⟩, fun h s ⟨v, hv, hs⟩ => h v hv s hs⟩

end Value

end TaggedEval
