import Mathlib.Logic.Relation
import TaggedEval.Module.Recipe
import TaggedEval.Proofs.Module.Run

/-!
# Evaluation with and without a check for cycles

`Recipes.valueOf` refuses a name that is under evaluation, `Recipe.Gives` does not look. A name with
a finite evaluation cannot need itself, however far off (`Recipes.acc_of_gives`), so `valueOf` finds
the result of that evaluation (`Recipes.valueOf_eq_of_gives`). And what `valueOf` gives without
meeting a cycle is the result of a finite evaluation (`Recipes.gives_of_not_cycle`).
-/

namespace TaggedEval

open Session Relation

namespace Recipes

variable {recipes : Recipes} {name : String} {r : Recipe} {path : List String}

theorem valueOf_of_undefined (h : recipes[name]? = none) (path : List String) :
    recipes.valueOf path name = .error (.of (.undefinedName name)) := by
  rw [valueOf]
  split <;> simp_all

theorem valueOf_of_mem (h : recipes[name]? = some r) (hmem : name ∈ path) :
    recipes.valueOf path name = .error (.of (.cycle name)) := by
  rw [valueOf]
  split <;> simp_all

/-- A module notes a failure of a body in the words in which `valueOf` notes that of a recipe. -/
theorem mapError_eq_noted (name : String) (o : Outcome Value) :
    (o.mapError fun failure =>
      { failure with notes := failure.notes ++ ["while evaluating " ++ name] }) = noted name o := by
  cases o <;> rfl

theorem valueOf_of_not_mem (h : recipes[name]? = some r) (hnot : name ∉ path) :
    recipes.valueOf path name = noted name (r.follow (recipes.valueOf (name :: path))) := by
  rw [valueOf, ← mapError_eq_noted]
  split <;> simp_all

end Recipes

/-! ## Results of finite evaluations -/

theorem Recipe.Gives.unique {recipes : Recipes} {r : Recipe} {o o' : Outcome Value}
    (h : Gives recipes r o) (h' : Gives recipes r o') : o = o' := by
  -- The hypothesis of the inner evaluation settles which of the three rules for a lookup applies.
  induction h generalizing o' with
  | value v => cases h'; rfl
  | fail failure => cases h'; rfl
  | lookupOk defined _ _ ihInner ihOuter =>
    cases h' with
    | lookupOk defined' inner' outer' =>
      cases defined.symm.trans defined'
      cases ihInner inner'
      exact ihOuter outer'
    | lookupError defined' inner' =>
      cases defined.symm.trans defined'
      cases ihInner inner'
    | lookupUndefined undefined =>
      rw [defined] at undefined
      cases undefined
  | lookupError defined _ ihInner =>
    cases h' with
    | lookupOk defined' inner' _ =>
      cases defined.symm.trans defined'
      cases ihInner inner'
    | lookupError defined' inner' =>
      cases defined.symm.trans defined'
      cases ihInner inner'
      rfl
    | lookupUndefined undefined =>
      rw [defined] at undefined
      cases undefined
  | lookupUndefined undefined =>
    cases h' with
    | lookupOk defined' _ _ =>
      rw [undefined] at defined'
      cases defined'
    | lookupError defined' _ =>
      rw [undefined] at defined'
      cases defined'
    | lookupUndefined _ => rfl

/-- The recipe, run on the values of its earlier lookups, looks the name up. -/
inductive Recipe.Asks (recipes : Recipes) : Recipe → String → Prop
  | here (name : String) (next : Value → Recipe) : Asks recipes (.lookup name next) name
  | later {name other : String} {next : Value → Recipe} {r : Recipe} {v : Value}
      (defined : recipes[name]? = some r) (value : r.Gives recipes (.ok v))
      (rest : Asks recipes (next v) other) : Asks recipes (.lookup name next) other

namespace Recipes

/-- The recipe of the first name looks the second name up. -/
def Needs (recipes : Recipes) (a b : String) : Prop :=
  ∃ r, recipes[a]? = some r ∧ r.Asks recipes b

variable {recipes : Recipes}

theorem acc_of_asks {name : String} {r : Recipe} (defined : recipes[name]? = some r)
    (h : ∀ b, r.Asks recipes b → Acc (fun b a => recipes.Needs a b) b) :
    Acc (fun b a => recipes.Needs a b) name := by
  refine Acc.intro name fun b hneeds => ?_
  obtain ⟨r', defined', hasks⟩ := hneeds
  cases defined.symm.trans defined'
  exact h b hasks

/-- In a finite evaluation no chain of needs goes on for ever. -/
theorem acc_of_gives {r : Recipe} {o : Outcome Value} (h : r.Gives recipes o) (name : String)
    (hasks : r.Asks recipes name) : Acc (fun b a => recipes.Needs a b) name := by
  -- A name is either the first that is looked up or comes later; a name that comes later is asked
  -- for by the rest of the recipe, because the first lookup has one value only.
  induction h generalizing name with
  | value v => cases hasks
  | fail failure => cases hasks
  | lookupOk defined inner _ ihInner ihOuter =>
    cases hasks with
    | here => exact acc_of_asks defined ihInner
    | later defined' value rest =>
      cases defined.symm.trans defined'
      cases inner.unique value
      exact ihOuter name rest
  | lookupError defined inner ihInner =>
    cases hasks with
    | here => exact acc_of_asks defined ihInner
    | later defined' value _ =>
      cases defined.symm.trans defined'
      cases inner.unique value
  | lookupUndefined undefined =>
    cases hasks with
    | here =>
      refine Acc.intro _ fun b hneeds => ?_
      obtain ⟨r', defined', -⟩ := hneeds
      rw [undefined] at defined'
      cases defined'
    | later defined' _ _ =>
      rw [undefined] at defined'
      cases defined'

theorem not_transGen_self {name : String} (h : Acc (fun b a => recipes.Needs a b) name) :
    ¬ TransGen recipes.Needs name name := by
  induction h with
  | intro name _ ih =>
    intro hcycle
    -- Turning a cycle by one need gives a cycle at the next name.
    obtain ⟨b, hneeds, hback⟩ := TransGen.head'_iff.mp hcycle
    exact ih b hneeds (TransGen.tail' hback hneeds)

theorem transGen_of_mem_cons {path : List String} {name b : String}
    (hpath : ∀ q ∈ path, TransGen recipes.Needs q name) (hneeds : recipes.Needs name b) :
    ∀ q ∈ name :: path, TransGen recipes.Needs q b := by
  intro q hq
  rcases List.mem_cons.mp hq with rfl | hmem
  · exact .single hneeds
  · exact (hpath q hmem).tail hneeds

/-- A name with a finite evaluation is not refused on a path of names that need it. -/
theorem valueOf_eq_noted {path : List String} {name : String} {r : Recipe} {o : Outcome Value}
    (defined : recipes[name]? = some r) (hacc : Acc (fun b a => recipes.Needs a b) name)
    (hpath : ∀ q ∈ path, TransGen recipes.Needs q name)
    (hfollow : ∀ path', (∀ b, r.Asks recipes b → ∀ q ∈ path', TransGen recipes.Needs q b) →
      r.follow (recipes.valueOf path') = o) :
    recipes.valueOf path name = noted name o := by
  -- A name on the path would need itself.
  have hfresh : name ∉ path := fun hmem => not_transGen_self hacc (hpath name hmem)
  rw [valueOf_of_not_mem defined hfresh, hfollow (name :: path)]
  intro b hasks
  exact transGen_of_mem_cons hpath ⟨r, defined, hasks⟩

theorem follow_eq_of_gives {r : Recipe} {o : Outcome Value} (h : r.Gives recipes o)
    (path : List String) (hpath : ∀ b, r.Asks recipes b → ∀ q ∈ path, TransGen recipes.Needs q b) :
    r.follow (recipes.valueOf path) = o := by
  induction h generalizing path with
  | value v => rfl
  | fail failure => rfl
  | @lookupOk name next r v o defined inner outer ihInner ihOuter =>
    have hacc := acc_of_gives (.lookupOk defined inner outer) name (.here name next)
    have hvalue := valueOf_eq_noted defined hacc (hpath name (.here name next)) ihInner
    simp only [Recipe.follow, hvalue, noted_ok]
    exact ihOuter path fun b hasks => hpath b (.later defined inner hasks)
  | @lookupError name next r failure defined inner ihInner =>
    have hacc := acc_of_gives (.lookupError defined inner) name (.here name next)
    have hvalue := valueOf_eq_noted defined hacc (hpath name (.here name next)) ihInner
    simp only [Recipe.follow, hvalue, noted_error]
    rfl
  | lookupUndefined undefined => simp only [Recipe.follow, valueOf_of_undefined undefined path]

/-- Looking a name up gives the result of its finite evaluation, noted if it is a failure. -/
theorem valueOf_eq_of_gives {name : String} {r : Recipe} {o : Outcome Value}
    (defined : recipes[name]? = some r) (h : r.Gives recipes o) (path : List String)
    (hpath : ∀ q ∈ path, TransGen recipes.Needs q name) :
    recipes.valueOf path name = noted name o :=
  valueOf_eq_noted defined (acc_of_asks defined fun b hasks => acc_of_gives h b hasks) hpath
    (follow_eq_of_gives h)

end Recipes

/-! ## Results that are no cycle -/

/-- The outcome is a failure because the definition of `c` depends on its own value. -/
def IsCycle (c : String) (o : Outcome Value) : Prop :=
  ∃ failure, o = .error failure ∧ failure.cause = .cycle c

theorem not_isCycle_ok (c : String) (v : Value) : ¬ IsCycle c (.ok v) := by
  rintro ⟨failure, heq, -⟩
  cases heq

theorem isCycle_error_iff {c : String} {failure : Failure} :
    IsCycle c (.error failure) ↔ failure.cause = .cycle c := by
  constructor
  · rintro ⟨failure', heq, hcause⟩
    cases heq
    exact hcause
  · intro h
    exact ⟨failure, rfl, h⟩

theorem isCycle_noted_iff {c name : String} {o : Outcome Value} :
    IsCycle c (noted name o) ↔ IsCycle c o := by
  cases o with
  | ok v => rfl
  | error failure => rw [noted_error, isCycle_error_iff, isCycle_error_iff, Failure.addNote_cause]

namespace Recipes

variable {recipes : Recipes}

theorem gives_follow {outcome : String → Outcome Value}
    (hundefined : ∀ name, recipes[name]? = none →
      outcome name = .error (.of (.undefinedName name)))
    (hdefined : ∀ name r, recipes[name]? = some r → (∀ c, ¬ IsCycle c (outcome name)) →
      ∃ o, r.Gives recipes o ∧ outcome name = noted name o)
    (r : Recipe) (hcycle : ∀ c, ¬ IsCycle c (r.follow outcome)) :
    r.Gives recipes (r.follow outcome) := by
  induction r with
  | value v => exact .value v
  | fail failure => exact .fail failure
  | lookup name next ih =>
    cases hentry : recipes[name]? with
    | none =>
      simp only [Recipe.follow, hundefined name hentry]
      exact .lookupUndefined hentry
    | some r =>
      cases houtcome : outcome name with
      | ok v =>
        have hno : ∀ c, ¬ IsCycle c (outcome name) := fun c => houtcome ▸ not_isCycle_ok c v
        obtain ⟨o, hgives, hnoted⟩ := hdefined name r hentry hno
        simp only [Recipe.follow, houtcome] at hcycle ⊢
        cases o with
        | ok w =>
          rw [houtcome, noted_ok] at hnoted
          cases hnoted
          exact .lookupOk hentry hgives (ih v hcycle)
        | error failure =>
          rw [houtcome, noted_error] at hnoted
          cases hnoted
      | error failure =>
        simp only [Recipe.follow, houtcome] at hcycle ⊢
        have hno : ∀ c, ¬ IsCycle c (outcome name) := fun c => houtcome ▸ hcycle c
        obtain ⟨o, hgives, hnoted⟩ := hdefined name r hentry hno
        cases o with
        | ok w =>
          rw [houtcome, noted_ok] at hnoted
          cases hnoted
        | error inner =>
          rw [houtcome, noted_error] at hnoted
          cases hnoted
          exact .lookupError hentry hgives

/-- What a lookup gives without meeting a cycle is the result of a finite evaluation. -/
theorem gives_of_not_cycle (path : List String) (name : String) (r : Recipe)
    (defined : recipes[name]? = some r)
    (hcycle : ∀ c, ¬ IsCycle c (recipes.valueOf path name)) :
    ∃ o, r.Gives recipes o ∧ recipes.valueOf path name = noted name o := by
  induction path, name using valueOf.induct recipes generalizing r with
  | case1 path name undefined =>
    rw [undefined] at defined
    cases defined
  | case2 path name r' defined' hmem =>
    exfalso
    apply hcycle name
    rw [valueOf_of_mem defined' hmem, isCycle_error_iff]
    rfl
  | case3 path name r' defined' hfresh ih =>
    cases defined.symm.trans defined'
    have hvalue := valueOf_of_not_mem defined hfresh
    rw [hvalue] at hcycle ⊢
    refine ⟨_, gives_follow (fun n h => valueOf_of_undefined h _) ih _ ?_, rfl⟩
    exact fun c hc => hcycle c (isCycle_noted_iff.mpr hc)

end Recipes

end TaggedEval
