import TaggedEval.Number.Binary
import TaggedEval.Sequence.Fold

/-!
# Lists of numbers

Sums and products are folds in double arithmetic. `range` counts down from its upper bound and puts
each number in front, so the list comes out ascending.
-/

namespace TaggedEval

namespace Sequence

/-- The sum of a list of numbers, `0` for the empty list. -/
def sum (xs : Value) : Outcome Value :=
  Value.number <$> foldl (fun x total => do return (← x.toNumber) + total) 0 xs

/-- The product of a list of numbers, `1` for the empty list. -/
def product (xs : Value) : Outcome Value :=
  Value.number <$> foldl (fun x total => do return (← x.toNumber) * total) 1 xs

/-! ## Ranges -/

/-- Below this magnitude every integer is a double and so is the integer before it. At it, counting
    down would not move. -/
def boundLimit : Float := 9007199254740992

/-- Whether a number can bound a range. -/
def isBound (x : Float) : Bool :=
  x.isFinite && x.abs < boundLimit

/-- Puts `hi`, `hi - 1`, ... in front of `acc` as long as they are not below `lo`, but not more than
    `steps` of them. -/
def countDown (lo : Float) : (steps : Nat) → (hi : Float) → (acc : Value) → Value
  | 0, _, acc => acc
  | steps + 1, hi, acc =>
    if lo ≤ hi then countDown lo steps (hi - 1) (.cons (.number hi) acc) else acc

/-- A bound on the numbers that are counted down from `hi` to `lo`: there is one for each integer
    between them, and at most one more at each end for the fractions. -/
def countLimit (lo hi : Float) : Nat :=
  match BinaryNumber.ofFloat? lo, BinaryNumber.ofFloat? hi with
  | some low, some high => (high.floor - low.ceil + 2).toNat
  | _, _ => 0

/-- The numbers `hi`, `hi - 1`, ... that are not below `lo`, in ascending order. -/
def range (lo hi : Float) : Outcome Value :=
  if !isBound lo then
    .error (.unusableBound lo)
  else if !isBound hi then
    .error (.unusableBound hi)
  else
    .ok (countDown lo (countLimit lo hi) hi .nil)

/-- One copy of `x` for each element of `range 0 n`. -/
def replicate (n : Float) (x : Value) : Outcome Value := do
  map (fun _ => pure x) (← range 0 n)

end Sequence

end TaggedEval
