import TaggedEval.Value.Basic

/-!
# The text of a value

A number is written as `numberText` says, a text between double quotes with nothing escaped, and a
tagged value as `tag_<tag>_<number of fields>(<fields>)` with `", "` between the fields.

`toString` keeps the pieces that are still to be written in a list, so a value of any depth is
written with a flat call stack. `toString_eq_spelling` says that it writes `spelling`, which is the
same text by recursion on the value.
-/

namespace TaggedEval

namespace Value

/-- What stands before the fields of a tagged value. -/
def opening (tag : UInt32) (fields : List Value) : String :=
  "tag_" ++ tag.toNat.repr ++ "_" ++ fields.length.repr ++ "("

/-! ## Writing with a list of pending pieces -/

/-- A part of the output: ready text, or a value that is still to be written. -/
inductive Piece where
  | ready (s : String)
  | pending (v : Value)

/-- The fields of a tagged value and the text that stands between and after them. -/
def fieldPieces : List Value → List Piece
  | [] => [.ready ")"]
  | [v] => [.pending v, .ready ")"]
  | v :: vs => .pending v :: .ready ", " :: fieldPieces vs

/-- A bound on the steps that writing these pieces takes. -/
noncomputable def weight : List Piece → Nat
  | [] => 0
  | .ready _ :: rest => 1 + weight rest
  | .pending v :: rest => 3 * sizeOf v + weight rest

theorem weight_append (pieces rest : List Piece) :
    weight (pieces ++ rest) = weight pieces + weight rest := by
  fun_induction weight pieces with
  | case1 => simp
  | case2 s pieces ih =>
    simp only [List.cons_append, weight, ih]
    omega
  | case3 v pieces ih =>
    simp only [List.cons_append, weight, ih]
    omega

theorem weight_fieldPieces_le (vs : List Value) : weight (fieldPieces vs) ≤ 3 * sizeOf vs := by
  fun_induction fieldPieces vs with
  | case1 =>
    simp only [weight, List.nil.sizeOf_spec]
    omega
  | case2 v =>
    simp only [weight, List.cons.sizeOf_spec, List.nil.sizeOf_spec]
    omega
  | case3 v vs _ ih =>
    simp only [weight, List.cons.sizeOf_spec]
    omega

/-- Writes all pieces after `out`. -/
def writePieces (out : String) : List Piece → String
  | [] => out
  | .ready s :: rest => writePieces (out ++ s) rest
  | .pending (.number x) :: rest => writePieces (out ++ numberText x) rest
  | .pending (.text s) :: rest => writePieces (out ++ "\"" ++ s ++ "\"") rest
  | .pending (.tagged tag fields) :: rest =>
    writePieces (out ++ opening tag fields) (fieldPieces fields ++ rest)
termination_by pieces => weight pieces
decreasing_by
  · simp only [weight]
    omega
  · simp only [weight, Value.number.sizeOf_spec]
    omega
  · simp only [weight, Value.text.sizeOf_spec]
    omega
  · have := weight_fieldPieces_le fields
    simp only [weight, weight_append, Value.tagged.sizeOf_spec]
    omega

def toString (v : Value) : String :=
  writePieces "" [.pending v]

/-! ## The same by recursion -/

mutual

/-- The text of a value, by recursion on it. -/
def spelling : Value → String
  | .number x => numberText x
  | .text s => "\"" ++ s ++ "\""
  | .tagged tag fields => opening tag fields ++ spellingAll fields ++ ")"

/-- The texts of several values with separators between them. -/
def spellingAll : List Value → String
  | [] => ""
  | [v] => spelling v
  | v :: vs => spelling v ++ ", " ++ spellingAll vs

end

def Piece.spelling : Piece → String
  | .ready s => s
  | .pending v => v.spelling

theorem join_fieldPieces (vs : List Value) :
    String.join ((fieldPieces vs).map Piece.spelling) = spellingAll vs ++ ")" := by
  fun_induction fieldPieces vs with
  | case1 => simp [Piece.spelling, spellingAll, String.join_cons]
  | case2 v => simp [Piece.spelling, spellingAll, String.join_cons]
  | case3 v vs _ ih => simp_all [Piece.spelling, spellingAll, String.join_cons, String.append_assoc]

theorem writePieces_eq (out : String) (pieces : List Piece) :
    writePieces out pieces = out ++ String.join (pieces.map Piece.spelling) := by
  fun_induction writePieces out pieces with
  | case1 => simp
  | case2 out s rest ih => simp [ih, Piece.spelling, String.join_cons, String.append_assoc]
  | case3 out x rest ih =>
    simp [ih, Piece.spelling, Value.spelling, String.join_cons, String.append_assoc]
  | case4 out s rest ih =>
    rw [ih]
    simp [Piece.spelling, Value.spelling, String.join_cons, String.append_assoc]
  | case5 out tag fields rest ih =>
    simp [ih, Piece.spelling, Value.spelling, String.join_cons, String.append_assoc,
      join_fieldPieces]

theorem toString_eq_spelling (v : Value) : v.toString = v.spelling := by
  simp [toString, writePieces_eq, Piece.spelling, String.join_cons]

end Value

end TaggedEval
