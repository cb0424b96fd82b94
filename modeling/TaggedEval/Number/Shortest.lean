import TaggedEval.Number.Decimal

/-!
# The shortest decimal that reads back

A reader that rounds to the nearest double, ties to an even mantissa, takes every decimal of an
interval around a double for that double. Of these decimals the shortest is the one on the coarsest
grid `10 ^ p` that has a point in the interval; only the two grid points next to the double can be
nearest to it. All comparisons are exact: both sides are brought to a common denominator.
-/

namespace TaggedEval

/-- A positive double `mantissa · 2 ^ exponent`, seen as the centre of the interval of the numbers
    that round to it. Distances are counted in quarters of `2 ^ exponent`. -/
structure RoundingInterval where
  mantissa : Nat
  exponent : Int

namespace RoundingInterval

def center (r : RoundingInterval) : Nat :=
  4 * r.mantissa

/-- The lower end lies half way to the next smaller double. That double is only half as far away
    when the mantissa is the least of a binade, except in the lowest one. -/
def lower (r : RoundingInterval) : Nat :=
  if r.mantissa = Nat.pow 2 52 ∧ -1074 < r.exponent then r.center - 1 else r.center - 2

/-- The upper end lies half way to the next larger double. -/
def upper (r : RoundingInterval) : Nat :=
  r.center + 2

/-- The ends round to an even mantissa, and so belong to the interval exactly when the mantissa is
    even. -/
def closed (r : RoundingInterval) : Bool :=
  r.mantissa % 2 == 0

/-! ## One grid -/

/-- The size of a cell of the grid `10 ^ p`, as a multiple of a common fraction. -/
def cell (r : RoundingInterval) (p : Int) : Nat :=
  Nat.pow 10 p.toNat * Nat.pow 2 (2 - r.exponent).toNat

/-- The size of a quarter of `2 ^ exponent`, as a multiple of the same fraction as `cell`. -/
def quarter (r : RoundingInterval) (p : Int) : Nat :=
  Nat.pow 10 (-p).toNat * Nat.pow 2 (r.exponent - 2).toNat

/-- Whether `coefficient · 10 ^ p` rounds to the double. -/
def contains (r : RoundingInterval) (d : Decimal) : Bool :=
  let point := d.coefficient * r.cell d.exponent
  let low := r.lower * r.quarter d.exponent
  let high := r.upper * r.quarter d.exponent
  if r.closed then low ≤ point && point ≤ high else low < point && point < high

/-- The point of the grid `10 ^ p` that rounds to the double and is nearest to it, if there is one.
    Of two that are equally near, the larger is taken. -/
def onGrid? (r : RoundingInterval) (p : Int) : Option Decimal :=
  let value := r.center * r.quarter p
  let below : Decimal := ⟨value / r.cell p, p⟩
  let above : Decimal := ⟨value / r.cell p + 1, p⟩
  match r.contains below, r.contains above with
  -- The double lies between the two points, so the remainder tells which one is nearer.
  | true, true => if 2 * (value % r.cell p) < r.cell p then some below else some above
  | true, false => some below
  | false, true => some above
  | false, false => none

theorem contains_of_onGrid? {r : RoundingInterval} {p : Int} {d : Decimal}
    (h : r.onGrid? p = some d) : r.contains d = true := by
  simp only [onGrid?] at h
  split at h
  · split at h <;> simp_all
  · simp_all
  · simp_all
  · simp at h

/-! ## The search -/

def digitCount (n : Nat) : Nat :=
  (Nat.toDigits 10 n).length

/-- The power of ten of the place before the leading digit: the double is less than
    `10 ^ magnitude`, and not less than a tenth of that. -/
def magnitude (r : RoundingInterval) : Int :=
  let numerator := r.mantissa * Nat.pow 2 r.exponent.toNat
  let denominator := Nat.pow 2 (-r.exponent).toNat
  if denominator ≤ numerator then
    digitCount (numerator / denominator)
  else
    1 - (digitCount ((denominator - 1) / numerator) : Int)

/-- All digits of the double. A binary fraction is a decimal one, as `2 ^ -n` is `5 ^ n / 10 ^ n`. -/
def exact (r : RoundingInterval) : Decimal :=
  ⟨r.mantissa * Nat.pow 2 r.exponent.toNat * Nat.pow 5 (-r.exponent).toNat, min r.exponent 0⟩

/-- The shortest decimal that rounds to the double, and among the shortest the nearest to it. No
    double needs more than seventeen digits. -/
def shortest (r : RoundingInterval) : Decimal :=
  ((List.range 17).findSome? fun (i : Nat) => r.onGrid? (r.magnitude - 1 - i)).getD r.exact |>.trim

end RoundingInterval

end TaggedEval
