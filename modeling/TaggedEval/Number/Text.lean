import TaggedEval.Number.Shortest

/-!
# The text of a number

A finite number is written with the fewest digits that read back as the same double, never with an
exponent; both zeros are written `0`.
-/

namespace TaggedEval

def signText : Float.Model.UnpackedFloat.Sign → String
  | .negative => "-"
  | .positive => ""

def numberText (x : Float) : String :=
  match x.toModel.unpack with
  | .notANumber => "NaN"
  | .infinity sign => signText sign ++ "Infinity"
  | .zero _ => "0"
  | .finite sign mantissa exponent _ =>
    signText sign ++ (RoundingInterval.mk mantissa exponent).shortest.positional

end TaggedEval
