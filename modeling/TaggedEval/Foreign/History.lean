import TaggedEval.Foreign

/-!
# Histories of a registry

A registry only grows by two kinds of steps. `Registry.after` carries a history of steps out;
`bindings` reads the same history as a list of bindings, the latest first, in which a later one
hides an earlier one of the same name.
-/

namespace TaggedEval

namespace Foreign

inductive Change where
  | register (name : String) (f : Foreign)
  | alias (name source : String)

/-- The name that a change gives a function to. -/
def Change.target : Change → String
  | .register name _ | .alias name _ => name

namespace Registry

/-- Carries one change out. An alias of a name that stands for nothing changes nothing. -/
def change (r : Registry) : Change → Registry
  | .register name f => (r.register name f).2
  | .alias name source => ((r.alias? name source).map (·.2)).getD r

def after (r : Registry) (history : List Change) : Registry :=
  history.foldl change r

end Registry

/-- The bindings after one change: those before it, and perhaps a new one in front. -/
def bind (bindings : List (String × Foreign)) : Change → List (String × Foreign)
  | .register name f => (name, f) :: bindings
  | .alias name source =>
    match bindings.lookup source with
    | some f => (name, f) :: bindings
    | none => bindings

/-- The bindings that a history adds to those at its start. -/
def bindings (start : List (String × Foreign)) (history : List Change) :
    List (String × Foreign) :=
  history.foldl bind start

/-- The bindings that every program starts with. -/
def builtinBindings : List (String × Foreign) :=
  [("crash", crash), ("to_string", toText)]

end Foreign

end TaggedEval
