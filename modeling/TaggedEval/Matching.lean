import TaggedEval.TypeDeclaration

/-!
# Matching on the tag of a value

A match has a table of arms, indexed by tag. The arm at the tag of the scrutinee runs once, on the
fields of the scrutinee; no other arm runs. `run` looks only at the selected arm. `runTyped` first
compares the whole table with a type declaration, so a table that lacks an arm is refused whatever
the scrutinee is.
-/

namespace TaggedEval

variable {m : Type → Type} {α : Type}

/-- An arm binds a fixed number of fields. `fields` is for constructors with more than three. -/
inductive Arm (m : Type → Type) (α : Type) where
  | nullary (run : m α)
  | unary (run : Value → m α)
  | binary (run : Value → Value → m α)
  | ternary (run : Value → Value → Value → m α)
  | fields (arity : Nat) (run : List Value → m α)

namespace Arm

/-- The number of fields that the arm binds. -/
def arity : Arm m α → Nat
  | nullary _ => 0
  | unary _ => 1
  | binary _ => 2
  | ternary _ => 3
  | fields arity _ => arity

variable [Monad m] [MonadExcept Failure m]

/-- Runs the arm on the fields of a value with this tag. -/
def apply (tag : UInt32) (arm : Arm m α) (args : List Value) : m α :=
  match arm, args with
  | nullary run, [] => run
  | unary run, [a] => run a
  | binary run, [a, b] => run a b
  | ternary run, [a, b, c] => run a b c
  | fields arity run, args => if args.length = arity then run args else refuse args
  | _, args => refuse args
where
  /-- The failure of an arm that binds another number of fields. -/
  refuse (args : List Value) : m α :=
    throw (Failure.of (.wrongArity ("handler for tag " ++ tag.toNat.repr) args.length arm.arity))

end Arm

namespace Matching

variable [Monad m] [MonadExcept Failure m]

/-- The failure of a match on a value without a tag. -/
def untagged (v : Value) : Failure :=
  .of (.untagged v.kind)

/-- Runs the arm at the tag of the scrutinee. -/
def run (scrutinee : Value) (arms : List (Arm m α)) : m α :=
  match scrutinee with
  | .tagged tag args =>
    match arms[tag.toNat]? with
    | some arm => arm.apply tag args
    | none => throw (Failure.of (.noArm tag arms.length))
  | v => throw (untagged v)

/-- How a failure lists the constructors that have no arm. -/
def missingText (c : Constructor) : String :=
  c.name ++ " (tag " ++ c.tag.toNat.repr ++ ")"

/-- Compares a table of arms with the constructors of a type: there must be one arm for each
    constructor, and it must bind the declared number of fields. -/
def checkArms (ty : TypeDeclaration) (arms : List (Arm m α)) : Outcome Unit :=
  if arms.length ≠ ty.size then
    .error (.of (.wrongArmCount ty.name ty.size arms.length
      ((ty.constructors.drop arms.length).map missingText)))
  else
    match (ty.constructors.zip arms).find? fun (c, arm) => c.arity != arm.arity with
    | some (c, arm) => .error (.of (.wrongArity c.name c.arity arm.arity))
    | none => .ok ()

/-- Runs the arm at the tag of the scrutinee, if the table fits the type and the scrutinee belongs
    to it. -/
def runTyped (ty : TypeDeclaration) (scrutinee : Value) (arms : List (Arm m α)) : m α := do
  MonadExcept.ofExcept (checkArms ty arms)
  match scrutinee with
  | .tagged .. =>
    let _ ← MonadExcept.ofExcept (ty.constructorOf scrutinee)
    run scrutinee arms
  | v => throw (untagged v)

end Matching

end TaggedEval
