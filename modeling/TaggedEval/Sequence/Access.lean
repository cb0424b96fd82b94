import TaggedEval.Sequence.Basic

/-!
# Parts of a list

Taking an element out of the empty list is a failure that names the operation.
-/

namespace TaggedEval

namespace Sequence

/-- The failure of an operation that needs an element. -/
def noElement (operation : String) : Failure :=
  .of (.emptyList operation)

/-- The first element. The other elements are not looked at. -/
def head (xs : Value) : Outcome Value := do
  match ← view xs with
  | .nil => throw (noElement "first")
  | .cons head _ => return head

/-- All elements but the first. They are not looked at. -/
def tail (xs : Value) : Outcome Value := do
  match ← view xs with
  | .nil => throw (noElement "rest")
  | .cons _ tail => return tail

/-- The last element of a list that starts with `x`. -/
def lastAfter (x : Value) : Value → Outcome Value
  | .nil => .ok x
  | .cons head tail => lastAfter head tail
  | v => .error (v.mismatch "List")

def last (xs : Value) : Outcome Value := do
  match ← view xs with
  | .nil => throw (noElement "last")
  | .cons head tail => lastAfter head tail

/-- Whether there is no element, as a truth value. The elements are not looked at. -/
def isEmpty (xs : Value) : Outcome Value := do
  match ← view xs with
  | .nil => return .ofBool true
  | .cons _ _ => return .ofBool false

end Sequence

end TaggedEval
