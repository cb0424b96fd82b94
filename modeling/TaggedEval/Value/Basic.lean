import TaggedEval.Failure

/-!
# Values

A value is a number, a text, or a tag with fields. Truth values and lists are tagged values:
`false` and `nil` are tag `0` with no field, `true` is tag `1` with no field, and a list cell is
tag `1` with a head and a tail.
-/

namespace TaggedEval

inductive Value where
  | number (x : Float)
  | text (s : String)
  | tagged (tag : UInt32) (fields : List Value)

namespace Value

@[match_pattern] def nil : Value :=
  .tagged 0 []

@[match_pattern] def cons (head tail : Value) : Value :=
  .tagged 1 [head, tail]

def ofBool : Bool → Value
  | false => .tagged 0 []
  | true => .tagged 1 []

/-- Values are finite trees: what holds of numbers and texts, and of a tagged value whenever it
    holds of all its fields, holds of every value. -/
theorem induct {motive : Value → Prop} (number : ∀ x, motive (.number x))
    (text : ∀ s, motive (.text s))
    (tagged : ∀ tag fields, (∀ v ∈ fields, motive v) → motive (.tagged tag fields)) :
    ∀ v, motive v
  | .number x => number x
  | .text s => text s
  | .tagged tag fields => tagged tag fields fun v _ => induct number text tagged v

/-! ## Converting a value -/

/-- The kind of a value, as failures report it. -/
def kind : Value → String
  | .number _ => "Num"
  | .text _ => "Text"
  | .tagged tag fields => "tag_" ++ tag.toNat.repr ++ "_" ++ fields.length.repr

/-- The failure of a value that is not of the kind that was asked for. -/
def mismatch (expected : String) (v : Value) : Failure :=
  .of (.wrongKind expected v.kind)

def toNumber : Value → Outcome Float
  | .number x => .ok x
  | v => .error (v.mismatch "Num")

def toText : Value → Outcome String
  | .text s => .ok s
  | v => .error (v.mismatch "Text")

/-- A truth value has no field and one of the two lowest tags. -/
def toBool : Value → Outcome Bool
  | .tagged 0 [] => .ok false
  | .tagged 1 [] => .ok true
  | v => .error (v.mismatch "Bool")

@[simp] theorem toBool_ofBool (b : Bool) : (ofBool b).toBool = .ok b := by
  cases b <;> rfl

theorem toBool_eq_ok_iff {v : Value} {b : Bool} : v.toBool = .ok b ↔ v = .ofBool b := by
  constructor
  · intro h
    unfold toBool at h
    split at h
    · cases h
      rfl
    · cases h
      rfl
    · cases h
  · rintro rfl
    exact toBool_ofBool b

end Value

end TaggedEval
