import TaggedEval.Matching
import TaggedEval.Number.Binary

/-!
# Truth values and parity

The connectives are matches on the type of truth values. Both arguments are values already, so
neither connective saves an evaluation, and the second argument is returned as it is.
-/

namespace TaggedEval

namespace Logic

open Matching

/-- The second argument if the first is true, and otherwise false. -/
def and (v w : Value) : Outcome Value :=
  runTyped .bool v [.nullary (pure (.ofBool false)), .nullary (pure w)]

/-- True if the first argument is true, and otherwise the second. -/
def or (v w : Value) : Outcome Value :=
  runTyped .bool v [.nullary (pure w), .nullary (pure (.ofBool true))]

def not (v : Value) : Outcome Value :=
  runTyped .bool v [.nullary (pure (.ofBool true)), .nullary (pure (.ofBool false))]

/-- Whether a number is an even integer. Infinities and NaN are not. -/
def isEven (v : Value) : Outcome Value := do
  let x ← v.toNumber
  return .ofBool ((BinaryNumber.ofFloat? x).any (·.isEven))

/-- Whether a number is anything but an even integer. -/
def isOdd (v : Value) : Outcome Value := do
  not (← isEven v)

end Logic

end TaggedEval
