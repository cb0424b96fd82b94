import TaggedEval.Name
import TaggedEval.Value.Text

/-!
# Foreign functions

Functions that are called by name. A name stands for the function that was registered for it last;
an alias is the function that its source stood for at that moment.
-/

namespace TaggedEval

/-- A function that takes any number of arguments. -/
abbrev Foreign : Type :=
  List Value → Outcome Value

namespace Foreign

/-- The failure of a call with another number of arguments. -/
def wrongArity (name : String) (expected : Nat) (args : List Value) : Failure :=
  .of (.wrongArity name expected args.length)

def textOf (v : Value) : Value :=
  .text v.toString

def toText : Foreign
  | [v] => .ok (textOf v)
  | args => .error (wrongArity "to_string" 1 args)

/-- Fails with its one argument as the message: a text as it is, any other value by its text. -/
def crash : Foreign
  | [.text message] => .error (.of (.crash message))
  | [v] => .error (.of (.crash v.toString))
  | args => .error (wrongArity "crash" 1 args)

/-- The functions that names stand for. -/
structure Registry where
  functions : NameMap Foreign

namespace Registry

def empty : Registry :=
  ⟨∅⟩

def get? (r : Registry) (name : String) : Option Foreign :=
  r.functions[name]?

/-- Lets a name stand for a function, and returns the function that it stood for before. -/
def register (r : Registry) (name : String) (f : Foreign) : Option Foreign × Registry :=
  (r.get? name, ⟨r.functions.insert name f⟩)

/-- Registers the function that `source` stands for under a second name, if it stands for one. -/
def alias? (r : Registry) (name source : String) : Option (Option Foreign × Registry) :=
  (r.get? source).map (r.register name)

def call (r : Registry) (name : String) (args : List Value) : Outcome Value :=
  match r.get? name with
  | some f => f args
  | none => .error (.of (.undefinedForeign name))

/-- The names that stand for a function, in byte order. -/
def names (r : Registry) : List String :=
  r.functions.keys

/-- The functions that every program can call. -/
def builtins : Registry :=
  ((empty.register "to_string" toText).2.register "crash" crash).2

end Registry

end Foreign

end TaggedEval
