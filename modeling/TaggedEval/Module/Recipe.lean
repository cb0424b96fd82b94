import TaggedEval.Module.Machine

/-!
# Pure definitions, evaluated without a cache

A recipe is a body that has no effect and passes the failure of a lookup on: what it does next
depends only on the values that it has looked up so far. For modules of recipes there are two more
ways to say what a name stands for. `Recipes.valueOf` evaluates the recipe of a name anew at every
lookup and carries nothing but the names under evaluation, to stop at cycles. `Recipe.Gives` does
not even look for cycles: it relates a recipe to each result that a finite evaluation can give.
-/

namespace TaggedEval

/-- A body without effects that fails with the first failed lookup. -/
inductive Recipe where
  | value (v : Value)
  | fail (failure : Failure)
  | lookup (name : String) (resume : Value → Recipe)

abbrev Recipes : Type :=
  NameMap Recipe

namespace Recipe

/-- The recipe as a body, on any host state. -/
def body {σ : Type} : Recipe → Body σ
  | value v => .finish (.ok v)
  | fail failure => .finish (.error failure)
  | lookup name resume => .lookup name fun
    | .ok v => (resume v).body
    | .error failure => .finish (.error failure)

/-- Follows a recipe, with the outcomes of its lookups given by a function. -/
def follow (outcome : String → Outcome Value) : Recipe → Outcome Value
  | value v => .ok v
  | fail failure => .error failure
  | lookup name resume =>
    match outcome name with
    | .ok v => (resume v).follow outcome
    | .error failure => .error failure

/-- The results that a finite evaluation of a recipe can give, when a lookup evaluates the recipe of
    the name again. -/
inductive Gives (recipes : Recipes) : Recipe → Outcome Value → Prop
  | value (v : Value) : Gives recipes (.value v) (.ok v)
  | fail (failure : Failure) : Gives recipes (.fail failure) (.error failure)
  | lookupOk {name : String} {resume : Value → Recipe} {r : Recipe} {v : Value}
      {o : Outcome Value} (defined : recipes[name]? = some r)
      (inner : Gives recipes r (.ok v)) (outer : Gives recipes (resume v) o) :
      Gives recipes (.lookup name resume) o
  | lookupError {name : String} {resume : Value → Recipe} {r : Recipe} {failure : Failure}
      (defined : recipes[name]? = some r) (inner : Gives recipes r (.error failure)) :
      Gives recipes (.lookup name resume)
        (.error { failure with notes := failure.notes ++ ["while evaluating " ++ name] })
  | lookupUndefined {name : String} {resume : Value → Recipe} (undefined : recipes[name]? = none) :
      Gives recipes (.lookup name resume) (.error (.of (.undefinedName name)))

end Recipe

namespace Recipes

def module {σ : Type} (name : String) (definitions : List (String × Recipe)) : Module σ :=
  .ofDefinitions name (definitions.map fun d => ⟨d.1, d.2.body⟩)

/-- The recipes of these definitions; the last one for a name counts. -/
def ofDefinitions (definitions : List (String × Recipe)) : Recipes :=
  definitions.foldl (fun recipes d => recipes.insert d.1 d.2) ∅

/-- The names that are not under evaluation. -/
def unvisited (recipes : Recipes) (path : List String) : Nat :=
  (recipes.keys.filter (· ∉ path)).length

theorem unvisited_cons_lt {recipes : Recipes} {path : List String} {name : String} {r : Recipe}
    (defined : recipes[name]? = some r) (fresh : name ∉ path) :
    recipes.unvisited (name :: path) < recipes.unvisited path := by
  have hkey : name ∈ recipes.keys :=
    Std.TreeMap.mem_keys.mpr (Std.TreeMap.mem_iff_isSome_getElem?.mpr (by simp [defined]))
  have hsplit : recipes.keys.filter (· ∉ name :: path) =
      (recipes.keys.filter (· ∉ path)).filter (· ≠ name) := by
    rw [List.filter_filter]
    exact List.filter_congr fun k _ => by simp [List.mem_cons]
  -- Of the names outside `path`, all but `name` are left.
  rw [unvisited, unvisited, hsplit]
  exact List.length_filter_lt_length_iff_exists.mpr
    ⟨name, List.mem_filter.mpr ⟨hkey, by simpa using fresh⟩, by simp⟩

/-- What a lookup of a name gives while the names in `path` are under evaluation. A failure of the
    recipe gets a note on its way out. -/
def valueOf (recipes : Recipes) (path : List String) (name : String) : Outcome Value :=
  match _defined : recipes[name]? with
  | none => .error (.of (.undefinedName name))
  | some r =>
    if _fresh : name ∈ path then
      .error (.of (.cycle name))
    else
      (r.follow (recipes.valueOf (name :: path))).mapError fun failure =>
        { failure with notes := failure.notes ++ ["while evaluating " ++ name] }
termination_by recipes.unvisited path
decreasing_by exact unvisited_cons_lt _defined _fresh

end Recipes

end TaggedEval
