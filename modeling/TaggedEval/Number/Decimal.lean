/-!
# Decimal numbers in positional notation

A decimal `coefficient · 10 ^ exponent` is written without an exponent, however long the text
becomes, and a trimmed one with no zero after its last significant place behind the point.
-/

namespace TaggedEval

/-- The number `coefficient · 10 ^ exponent`. -/
structure Decimal where
  coefficient : Nat
  exponent : Int
deriving DecidableEq

namespace Decimal

/-- The same number with the factors of ten moved from the coefficient into the exponent. -/
def trim (d : Decimal) : Decimal :=
  if d.coefficient ≠ 0 ∧ d.coefficient % 10 = 0 then
    trim ⟨d.coefficient / 10, d.exponent + 1⟩
  else
    d
termination_by d.coefficient
decreasing_by omega

/-- The digits with a point before the last `places` of them, filled up with zeros so that at
    least one digit stands before the point. -/
def pointed (digits : List Char) (places : Nat) : List Char :=
  if places < digits.length then
    digits.take (digits.length - places) ++ '.' :: digits.drop (digits.length - places)
  else
    '0' :: '.' :: (List.replicate (places - digits.length) '0' ++ digits)

/-- Positional notation: zeros follow the digits of a whole number, and a point stands before the
    last `-exponent` digits of any other. -/
def positional (d : Decimal) : String :=
  let digits := Nat.toDigits 10 d.coefficient
  if 0 ≤ d.exponent then
    String.ofList (digits ++ List.replicate d.exponent.toNat '0')
  else
    String.ofList (pointed digits (-d.exponent).toNat)

end Decimal

end TaggedEval
