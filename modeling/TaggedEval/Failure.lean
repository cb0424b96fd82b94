import TaggedEval.Number.Text

/-!
# Failures

What can go wrong while a program runs: a cause, the message that reports it, and the notes that the
definitions around it added on the way out, innermost first. The wording of a cause is in
`Cause.message` and nowhere else.
-/

namespace TaggedEval

inductive Cause where
  | noArm (tag : UInt32) (arms : Nat)
  | wrongArmCount (type : String) (expected got : Nat) (missing : List String)
  | untagged (got : String)
  | wrongArity (name : String) (expected got : Nat)
  | unknownConstructor (type constructor : String)
  | emptyList (operation : String)
  | unusableBound (bound : String)
  | wrongKind (expected got : String)
  | undefinedForeign (name : String)
  | undefinedName (name : String)
  | cycle (name : String)
  | crash (message : String)
deriving DecidableEq

namespace Cause

/-- The text that reports a cause. -/
def message : Cause → String
  | noArm tag arms =>
    "non-exhaustive match: no handler for tag " ++ tag.toNat.repr ++
      " (" ++ arms.repr ++ " handlers supplied)"
  | wrongArmCount type expected got missing =>
    "non-exhaustive match on " ++ type ++ ": expected " ++ expected.repr ++
      " handlers, got " ++ got.repr ++
      (if missing.isEmpty then "" else " (missing " ++ ", ".intercalate missing ++ ")")
  | untagged got => "cannot match on " ++ got ++ ": not a constructor value"
  | wrongArity name expected got =>
    name ++ " expects " ++ expected.repr ++ " fields, got " ++ got.repr
  | unknownConstructor type constructor =>
    "type " ++ type ++ " has no constructor " ++ constructor
  | emptyList operation => operation ++ ": empty list"
  | unusableBound bound => "invalid range bound: " ++ bound
  | wrongKind expected got => "type mismatch: expected " ++ expected ++ ", got " ++ got
  | undefinedForeign name => "undefined foreign function: " ++ name
  | undefinedName name => "undefined top-level binding: " ++ name
  | cycle name => "definition of " ++ name ++ " depends on its own value"
  | crash message => "crash: " ++ message

/-- A match had no arm for a constructor. -/
def isMatchFailure : Cause → Bool
  | noArm .. | wrongArmCount .. => true
  | _ => false

/-- A list operation needed an element and found none. -/
def isEmptyList : Cause → Bool
  | emptyList _ => true
  | _ => false

end Cause

structure Failure where
  cause : Cause
  message : String
  notes : List String
deriving DecidableEq

namespace Failure

/-- A failure that is reported in the words of its cause, with no notes yet. -/
def of (cause : Cause) : Failure :=
  ⟨cause, cause.message, []⟩

/-- A range bound that is not usable is reported by its text. -/
def unusableBound (bound : Float) : Failure :=
  of (.unusableBound (numberText bound))

/-- Adds a note after the ones that are there. -/
def addNote (failure : Failure) (note : String) : Failure :=
  { failure with notes := failure.notes ++ [note] }

@[simp] theorem addNote_cause (failure : Failure) (note : String) :
    (failure.addNote note).cause = failure.cause := rfl

@[simp] theorem addNote_message (failure : Failure) (note : String) :
    (failure.addNote note).message = failure.message := rfl

@[simp] theorem addNote_notes (failure : Failure) (note : String) :
    (failure.addNote note).notes = failure.notes ++ [note] := rfl

end Failure

/-- The result of an evaluation that can fail. -/
abbrev Outcome (α : Type) : Type :=
  Except Failure α

end TaggedEval
