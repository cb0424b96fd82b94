import TaggedEval.Value.Equality
import TaggedEval.Value.Text

/-!
# Values as lists

A list is `nil`, or a cell whose tail is a list. `view` opens one cell, `toList` collects all heads,
and `ofList` builds a list. `spine` reads any value as a chain of cells with an end, and so tells
where a value stops being a list; `induct` is the way to reason about such chains.
-/

namespace TaggedEval

namespace Sequence

/-! ## One cell -/

/-- A list, opened once. -/
inductive View where
  | nil
  | cons (head tail : Value)

instance : BEq View where
  beq
    | .nil, .nil => true
    | .cons h t, .cons h' t' => h == h' && t == t'
    | _, _ => false

def View.describe : View → String
  | .nil => "Nil"
  | .cons head tail => "Cons(" ++ head.toString ++ ", " ++ tail.toString ++ ")"

/-- Opens a list; any other value is no list. -/
def view : Value → Outcome View
  | .nil => .ok .nil
  | .cons head tail => .ok (.cons head tail)
  | v => .error (v.mismatch "List")

/-! ## All cells -/

def ofList (vs : List Value) : Value :=
  vs.foldr Value.cons Value.nil

@[simp] theorem ofList_nil : ofList [] = Value.nil := rfl

@[simp] theorem ofList_cons (v : Value) (vs : List Value) :
    ofList (v :: vs) = Value.cons v (ofList vs) := rfl

/-- Collects the heads of a list behind those in `seen`, which are in reverse order. -/
def collect (seen : List Value) : Value → Outcome (List Value)
  | .nil => .ok seen.reverse
  | .cons head tail => collect (head :: seen) tail
  | v => .error (v.mismatch "List")

def toList (xs : Value) : Outcome (List Value) :=
  collect [] xs

/-! ## Chains of cells that need not be lists -/

/-- Splits a chain of cells into its heads, put behind those in `seen`, and its end. -/
def spineFrom (seen : List Value) : Value → List Value × Value
  | .cons head tail => spineFrom (head :: seen) tail
  | v => (seen.reverse, v)

/-- The heads of a chain of cells, in order, and the value at its end, which is no cell. -/
def spine (xs : Value) : List Value × Value :=
  spineFrom [] xs

def isCell : Value → Bool
  | .cons _ _ => true
  | _ => false

theorem eq_cons_of_isCell {v : Value} (h : isCell v = true) :
    ∃ head tail, v = .cons head tail := by
  unfold isCell at h
  split at h
  · exact ⟨_, _, rfl⟩
  · simp at h

theorem ne_cons_of_not_cell {v : Value} (h : isCell v = false) (head tail : Value) :
    v ≠ .cons head tail := by
  rintro rfl
  cases h

/-- Every value is reached by adding cells, one by one, in front of a value that is no cell. -/
theorem induct {motive : Value → Prop} (stop : ∀ v, isCell v = false → motive v)
    (cell : ∀ head tail, motive tail → motive (.cons head tail)) (xs : Value) : motive xs := by
  induction xs using Value.induct with
  | number x => exact stop _ rfl
  | text s => exact stop _ rfl
  | tagged tag fields ih =>
    cases h : isCell (.tagged tag fields) with
    | false => exact stop _ h
    | true =>
      -- The tail of a cell is one of its fields, so it is covered by `ih`.
      obtain ⟨head, tail, heq⟩ := eq_cons_of_isCell h
      injection heq with htag hfields
      subst htag hfields
      exact cell head tail (ih tail (by simp))

@[simp] theorem spineFrom_cons (seen : List Value) (head tail : Value) :
    spineFrom seen (.cons head tail) = spineFrom (head :: seen) tail := rfl

theorem spineFrom_of_not_cell (seen : List Value) {v : Value} (h : isCell v = false) :
    spineFrom seen v = (seen.reverse, v) := by
  rw [spineFrom]
  exact ne_cons_of_not_cell h

theorem spineFrom_eq (seen : List Value) (xs : Value) :
    spineFrom seen xs = (seen.reverse ++ (spine xs).1, (spine xs).2) := by
  induction xs using induct generalizing seen with
  | stop v h => simp [spine, spineFrom_of_not_cell _ h]
  | cell head tail ih => simp [spine, ih (head :: seen), ih [head]]

@[simp] theorem spine_cons (head tail : Value) :
    spine (.cons head tail) = (head :: (spine tail).1, (spine tail).2) :=
  spineFrom_eq [head] tail

theorem spine_of_not_cell {v : Value} (h : isCell v = false) : spine v = ([], v) :=
  spineFrom_of_not_cell [] h

@[simp] theorem spine_nil : spine .nil = ([], .nil) := rfl

end Sequence

end TaggedEval
