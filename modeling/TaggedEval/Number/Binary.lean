/-!
# Exact values of doubles

A finite double is `± mantissa · 2 ^ exponent` with a natural mantissa. Taking a double apart this
way makes its floor, its ceiling and its parity plain integer arithmetic, with no rounding.
-/

namespace TaggedEval

/-- The exact number `± mantissa · 2 ^ exponent`. -/
structure BinaryNumber where
  negative : Bool
  mantissa : Nat
  exponent : Int
deriving DecidableEq

namespace BinaryNumber

/-- The exact value of a double. An infinity and NaN have none; either zero has mantissa `0`. -/
def ofFloat? (x : Float) : Option BinaryNumber :=
  match x.toModel.unpack with
  | .finite sign mantissa exponent _ => some ⟨sign == .negative, mantissa, exponent⟩
  | .zero sign => some ⟨sign == .negative, 0, 0⟩
  | .infinity _ => none
  | .notANumber => none

/-! ## The value as a fraction

The value is `numerator / denominator`, with a power of two below. -/

def numerator (b : BinaryNumber) : Int :=
  (if b.negative then -(b.mantissa : Int) else b.mantissa) * ↑(Nat.pow 2 b.exponent.toNat)

/-- The denominator: `1` once the exponent is not negative. -/
def denominator (b : BinaryNumber) : Nat :=
  Nat.pow 2 (-b.exponent).toNat

theorem denominator_pos (b : BinaryNumber) : 0 < b.denominator :=
  Nat.two_pow_pos _

/-- The greatest integer that is not above the value. -/
def floor (b : BinaryNumber) : Int :=
  b.numerator / b.denominator

/-- The least integer that is not below the value. -/
def ceil (b : BinaryNumber) : Int :=
  -(-b.numerator / b.denominator)

def isEven (b : BinaryNumber) : Bool :=
  b.numerator % (2 * b.denominator) == 0

theorem denominator_ne_zero (b : BinaryNumber) : (b.denominator : Int) ≠ 0 := by
  have := b.denominator_pos
  omega

end BinaryNumber

end TaggedEval
