import Std.Data.HashMap
import TaggedEval.TypeDeclaration

/-!
# Declarations with a table of names

The tag of a name can be looked up in a table that is kept beside the constructors. Declaring a
constructor enters its tag there under its name, unless the name has a tag already.
-/

namespace TaggedEval

/-- A type declaration, and a table of the tags of its names. -/
structure IndexedDeclaration where
  type : TypeDeclaration
  tags : Std.HashMap String UInt32

namespace IndexedDeclaration

def new (name : String) : IndexedDeclaration :=
  ⟨.new name, ∅⟩

def addConstructor (d : IndexedDeclaration) (name : String) (arity : Nat) : IndexedDeclaration where
  type := d.type.addConstructor name arity
  tags := d.tags.insertIfNew name (TypeDeclaration.tagAt d.type.size)

/-- A type with the given constructor names and arities, in this order, and its table. -/
def declare (name : String) (shapes : List (String × Nat)) : IndexedDeclaration :=
  shapes.foldl (fun d shape => d.addConstructor shape.1 shape.2) (new name)

end IndexedDeclaration

end TaggedEval
