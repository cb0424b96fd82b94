import TaggedEval.Value.Basic

/-!
# Type declarations

A type declares constructors with names and numbers of fields. Tags are handed out in order of
declaration, so the tag of a constructor is its position. A name that is declared again takes a tag,
but looking the name up still finds the first declaration.
-/

namespace TaggedEval

structure Constructor where
  name : String
  tag : UInt32
  arity : Nat
deriving DecidableEq

/-- A type name and its constructors in order of declaration. -/
structure TypeDeclaration where
  name : String
  constructors : List Constructor
deriving DecidableEq

namespace TypeDeclaration

/-! ## Declaring -/

def new (name : String) : TypeDeclaration :=
  ⟨name, []⟩

/-- The tag of the constructor at a position. Tags have 32 bits; positions beyond them share the
    greatest tag. -/
def tagAt (position : Nat) : UInt32 :=
  .ofNat (min position (UInt32.size - 1))

def addConstructor (ty : TypeDeclaration) (name : String) (arity : Nat) : TypeDeclaration :=
  { ty with constructors := ty.constructors ++ [⟨name, tagAt ty.constructors.length, arity⟩] }

/-- A type with the given constructor names and arities, in this order. -/
def declare (name : String) (shapes : List (String × Nat)) : TypeDeclaration :=
  shapes.foldl (fun ty shape => ty.addConstructor shape.1 shape.2) (new name)

def list : TypeDeclaration :=
  declare "List" [("Nil", 0), ("Cons", 2)]

def bool : TypeDeclaration :=
  declare "Bool" [("False", 0), ("True", 0)]

/-! ## Looking up -/

def size (ty : TypeDeclaration) : Nat :=
  ty.constructors.length

def isEmpty (ty : TypeDeclaration) : Bool :=
  ty.constructors.isEmpty

/-- The tag of the first constructor of this name. -/
def tagOf? (ty : TypeDeclaration) (name : String) : Option UInt32 :=
  (ty.constructors.find? (·.name == name)).map (·.tag)

def constructor? (ty : TypeDeclaration) (tag : UInt32) : Option Constructor :=
  ty.constructors[tag.toNat]?

/-- The failure of a tag that is not declared. -/
def unknownTag (ty : TypeDeclaration) (tag : UInt32) : Failure :=
  .of (.unknownConstructor ty.name ("with tag " ++ tag.toNat.repr))

/-! ## Building and checking values -/

/-- The failure of a number of fields that the constructor does not take. -/
def wrongArity (c : Constructor) (got : Nat) : Failure :=
  .of (.wrongArity c.name c.arity got)

def make (ty : TypeDeclaration) (tag : UInt32) (fields : List Value) : Outcome Value :=
  match ty.constructor? tag with
  | none => .error (ty.unknownTag tag)
  | some c =>
    if fields.length = c.arity then .ok (.tagged tag fields)
    else .error (wrongArity c fields.length)

/-- The value with the tag of the first constructor of this name, and these fields. -/
def makeNamed (ty : TypeDeclaration) (name : String) (fields : List Value) : Outcome Value :=
  match ty.tagOf? name with
  | none => .error (.of (.unknownConstructor ty.name name))
  | some tag => ty.make tag fields

/-- The constructor that a value of this type was built with. -/
def constructorOf (ty : TypeDeclaration) : Value → Outcome Constructor
  | .tagged tag fields =>
    match ty.constructor? tag with
    | none => .error (ty.unknownTag tag)
    | some c => if c.arity = fields.length then .ok c else .error (wrongArity c fields.length)
  | v => .error (v.mismatch ty.name)

end TypeDeclaration

end TaggedEval
