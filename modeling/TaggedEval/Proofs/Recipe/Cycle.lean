import Mathlib.Data.List.Chain
import TaggedEval.Proofs.Recipe.Cached
import TaggedEval.Proofs.Recipe.Unfolding

/-!
# Cycles

In a module of recipes that do not report cycles on their own account, a lookup reports a cycle if
and only if the name has no finite evaluation. The notes of the failure then spell out a chain of
definitions, each of which fails on its lookup of the next, that runs back into itself.
-/

namespace TaggedEval

open Session Relation

variable {σ α : Type}

/-- The recipe never fails with a cycle except by a failed lookup. -/
def Recipe.RaisesNoCycle : Recipe → Prop
  | value _ => True
  | fail failure => ∀ c, failure.cause ≠ .cycle c
  | lookup _ next => ∀ v, (next v).RaisesNoCycle

namespace Recipes

/-- The recipe of the first name, run on the values of its earlier lookups, looks the second name up
    and gets no value. -/
def FailsOn (recipes : Recipes) (a b : String) : Prop :=
  recipes.Needs a b ∧ ∀ r v, recipes[b]? = some r → ¬ r.Gives recipes (.ok v)

variable {recipes : Recipes}

/-! ## Finite evaluations end without a cycle -/

section

variable (hraise : ∀ (name : String) (r : Recipe), recipes[name]? = some r → r.RaisesNoCycle)

include hraise

theorem not_isCycle_of_gives {r : Recipe} {o : Outcome Value} (h : r.Gives recipes o)
    (hr : r.RaisesNoCycle) (c : String) : ¬ IsCycle c o := by
  induction h with
  | value v => exact not_isCycle_ok c v
  | fail failure =>
    rw [isCycle_error_iff]
    exact hr c
  | lookupOk _ _ _ _ ihOuter => exact ihOuter (hr _)
  | @lookupError name _ r failure defined _ ihInner =>
    exact fun hcycle => ihInner (hraise name r defined) (isCycle_noted_iff.mp hcycle)
  | lookupUndefined _ =>
    rw [isCycle_error_iff]
    intro hcause
    cases hcause

theorem isCycle_valueOf_iff {name : String} {r : Recipe} (defined : recipes[name]? = some r) :
    (∃ c, IsCycle c (recipes.valueOf [] name)) ↔ ¬ ∃ o, r.Gives recipes o := by
  constructor
  · rintro ⟨c, hc⟩ ⟨o, ho⟩
    rw [valueOf_eq_of_gives defined ho [] (by simp), isCycle_noted_iff] at hc
    exact not_isCycle_of_gives hraise ho (hraise name r defined) c hc
  · intro hnone
    by_contra hcycle
    obtain ⟨o, ho, -⟩ := gives_of_not_cycle [] name r defined fun c hc => hcycle ⟨c, hc⟩
    exact hnone ⟨o, ho⟩

end

/-! ## The trail of a cycle -/

theorem exists_gives_of_valueOf_ok {path : List String} {name : String} {v : Value}
    (h : recipes.valueOf path name = .ok v) :
    ∃ r, recipes[name]? = some r ∧ r.Gives recipes (.ok v) := by
  cases hentry : recipes[name]? with
  | none =>
    rw [valueOf_of_undefined hentry] at h
    cases h
  | some r =>
    have hno : ∀ c, ¬ IsCycle c (recipes.valueOf path name) := fun c => h ▸ not_isCycle_ok c v
    obtain ⟨o, hgives, hnoted⟩ := gives_of_not_cycle path name r hentry hno
    rw [h] at hnoted
    cases o with
    | ok w =>
      cases hnoted
      exact ⟨r, rfl, hgives⟩
    | error failure => cases hnoted

theorem exists_asks_of_follow_eq_error {path : List String} {r : Recipe} (hr : r.RaisesNoCycle)
    {failure : Failure} {c : String} (h : r.follow (recipes.valueOf path) = .error failure)
    (hcause : failure.cause = .cycle c) :
    ∃ b, r.Asks recipes b ∧ recipes.valueOf path b = .error failure := by
  -- Lookups that succeed are passed over; the first that fails is the one.
  induction r with
  | value v => cases h
  | fail own =>
    cases h
    exact absurd hcause (hr c)
  | lookup name next ih =>
    cases houtcome : recipes.valueOf path name with
    | ok v =>
      obtain ⟨r, defined, hgives⟩ := exists_gives_of_valueOf_ok houtcome
      simp only [Recipe.follow, houtcome] at h
      obtain ⟨b, hasks, hb⟩ := ih v (hr v) h
      exact ⟨b, .later defined hgives hasks, hb⟩
    | error own =>
      simp only [Recipe.follow, houtcome] at h
      cases h
      exact ⟨name, .here name next, houtcome⟩

theorem failsOn_of_valueOf_eq_error {path : List String} {a b : String} {failure : Failure}
    (hneeds : recipes.Needs a b) (hpath : ∀ q ∈ path, TransGen recipes.Needs q b)
    (h : recipes.valueOf path b = .error failure) : recipes.FailsOn a b := by
  refine ⟨hneeds, fun r v defined hgives => ?_⟩
  rw [valueOf_eq_of_gives defined hgives path hpath] at h
  cases h

/-- The notes of a cycle, read backwards, are a chain of definitions from the name looked up, each
    failing on the next, until one fails on a name that is in the chain or was under evaluation
    before. -/
theorem exists_trail
    (hraise : ∀ (name : String) (r : Recipe), recipes[name]? = some r → r.RaisesNoCycle)
    (path : List String) (name : String) (hpath : ∀ q ∈ path, TransGen recipes.Needs q name)
    {failure : Failure} {c : String} (h : recipes.valueOf path name = .error failure)
    (hcause : failure.cause = .cycle c) :
    ∃ trail : List String, (trail ++ [c]).head? = some name ∧ trail.Nodup ∧
      (∀ q ∈ trail, q ∉ path) ∧ (c ∈ path ∨ c ∈ trail) ∧
      failure.notes = trail.reverse.map ("while evaluating " ++ ·) ∧
      (trail ++ [c]).IsChain recipes.FailsOn := by
  induction path, name using valueOf.induct recipes generalizing failure with
  | case1 path name undefined =>
    rw [valueOf_of_undefined undefined] at h
    cases h
    cases hcause
  | case2 path name r defined hmem =>
    rw [valueOf_of_mem defined hmem] at h
    cases h
    cases hcause
    exact ⟨[], rfl, List.nodup_nil, by simp, .inl hmem, rfl, List.isChain_singleton _⟩
  | case3 path name r defined hfresh ih =>
    rw [valueOf_of_not_mem defined hfresh] at h
    cases hfollow : r.follow (recipes.valueOf (name :: path)) with
    | ok v =>
      rw [hfollow] at h
      cases h
    | error inner =>
      rw [hfollow, noted_error] at h
      cases h
      obtain ⟨b, hasks, hb⟩ := exists_asks_of_follow_eq_error (hraise name r defined) hfollow hcause
      have hneeds : recipes.Needs name b := ⟨r, defined, hasks⟩
      have hpath' := transGen_of_mem_cons hpath hneeds
      -- The rest of the trail starts at `b` and avoids the path, which now has `name` on it.
      obtain ⟨trail, hhead, hnodup, hdisjoint, hmem, hnotes, hchain⟩ := ih b hpath' hb hcause
      refine ⟨name :: trail, rfl, ?_, ?_, ?_, ?_, ?_⟩
      · exact List.nodup_cons.mpr ⟨fun hq => hdisjoint name hq List.mem_cons_self, hnodup⟩
      · intro q hq hqpath
        rcases List.mem_cons.mp hq with rfl | htrail
        · exact hfresh hqpath
        · exact hdisjoint q htrail (List.mem_cons_of_mem name hqpath)
      · simp only [List.mem_cons] at hmem ⊢
        tauto
      · rw [Failure.addNote_notes, hnotes, List.reverse_cons, List.map_append]
        rfl
      · rw [List.cons_append]
        refine List.isChain_cons.mpr ⟨fun y hy => ?_, hchain⟩
        rw [hhead, Option.mem_some_iff] at hy
        rw [← hy]
        exact failsOn_of_valueOf_eq_error hneeds hpath' hb

end Recipes

/-- Between calls, a lookup of a defined name fails with a cycle if and only if the name has no
    finite evaluation. The notes of the failure, read from the last to the first, are then the names
    of a chain that starts with the name looked up and repeats no name; the recipe of each name in
    it fails on its lookup of the next one, and that of the last name on its lookup of the name that
    the failure reports, which is in the chain. -/
theorem valueOf_cycle_certified (moduleName : String) (definitions : List (String × Recipe))
    (hraise : ∀ (name : String) (r : Recipe),
      (Recipes.ofDefinitions definitions)[name]? = some r → r.RaisesNoCycle)
    {p : Program σ α} {s : Session σ}
    (hreach : Config.Reachable (Recipes.module moduleName definitions) ⟨p, .caller, s⟩)
    {name : String} {r : Recipe} (hdefined : (Recipes.ofDefinitions definitions)[name]? = some r) :
    ((∃ c failure, (s.valueOf name).1 = .error failure ∧ failure.cause = .cycle c) ↔
      ¬ ∃ o, r.Gives (.ofDefinitions definitions) o) ∧
    ∀ c failure, (s.valueOf name).1 = .error failure → failure.cause = .cycle c →
      ∃ trail : List String, trail.head? = some name ∧ trail.Nodup ∧ c ∈ trail ∧
        failure.notes.reverse = trail.map ("while evaluating " ++ ·) ∧
        (trail ++ [c]).IsChain (Recipes.ofDefinitions definitions).FailsOn := by
  have hvalue := (hreach.faithful.of_caller (.lookup name .finish)).valueOf_eq
  rw [Stack.active] at hvalue
  rw [hvalue]
  refine ⟨Recipes.isCycle_valueOf_iff hraise hdefined, fun c failure herror hcause => ?_⟩
  obtain ⟨trail, hhead, hnodup, -, hmem, hnotes, hchain⟩ :=
    Recipes.exists_trail hraise [] name (by simp) herror hcause
  have hc : c ∈ trail := hmem.resolve_left fun h => by cases h
  refine ⟨trail, ?_, hnodup, hc, ?_, hchain⟩
  · cases trail with
    | nil => cases hc
    | cons a rest => exact hhead
  · rw [hnotes, ← List.map_reverse, List.reverse_reverse]

/-- A definition that looks a value up before it looks itself up by way of another one. -/
def ring : List (String × Recipe) :=
  [("a", .lookup "v" fun _ => .lookup "b" .value), ("b", .lookup "a" .value), ("v", .value .nil)]

/-- The ring is found, and the notes lead around it. -/
theorem valueOf_cycle_certified_ring :
    ∃ failure, ((⟨Recipes.module "main" ring, ()⟩ : Session Unit).valueOf "a").1 = .error failure ∧
      failure.cause = .cycle "a" ∧
      (¬ ∃ o, Recipe.Gives (.ofDefinitions ring)
        (.lookup "v" fun _ => .lookup "b" .value) o) ∧
      ∃ trail : List String, trail.head? = some "a" ∧ trail.Nodup ∧ "a" ∈ trail ∧
        failure.notes.reverse = trail.map ("while evaluating " ++ ·) ∧
        (trail ++ ["a"]).IsChain (Recipes.ofDefinitions ring).FailsOn := by
  have hraise : ∀ (name : String) (r : Recipe),
      (Recipes.ofDefinitions ring)[name]? = some r → r.RaisesNoCycle := by
    intro name r h
    rw [Recipes.getElem?_ofDefinitions, Option.map_eq_some_iff] at h
    obtain ⟨d, hfind, rfl⟩ := h
    have hmem := List.mem_of_find?_eq_some hfind
    simp only [ring, List.mem_reverse, List.mem_cons, List.not_mem_nil, or_false] at hmem
    obtain rfl | rfl | rfl := hmem <;> simp [Recipe.RaisesNoCycle]
  have ha : (Recipes.ofDefinitions ring)["a"]? =
      some (.lookup "v" fun _ => .lookup "b" .value) := by
    simp [Recipes.getElem?_ofDefinitions, ring]
  have hb : (Recipes.ofDefinitions ring)["b"]? = some (.lookup "a" .value) := by
    simp [Recipes.getElem?_ofDefinitions, ring]
  have hv : (Recipes.ofDefinitions ring)["v"]? = some (.value .nil) := by
    simp [Recipes.getElem?_ofDefinitions, ring]
  have hreach : Config.Reachable (Recipes.module "main" ring)
      ⟨.lookup "a" .finish, .caller, ⟨Recipes.module "main" ring, ()⟩⟩ := .first _ _
  have hvalue : ((⟨Recipes.module "main" ring, ()⟩ : Session Unit).valueOf "a").1 =
      .error (((Failure.of (.cycle "a")).addNote "while evaluating b").addNote
        "while evaluating a") := by
    rw [hreach.faithful.valueOf_eq]
    simp [Stack.active, Recipe.follow, Recipes.valueOf_of_not_mem ha, Recipes.valueOf_of_not_mem hv,
      Recipes.valueOf_of_not_mem hb, Recipes.valueOf_of_mem ha]
  obtain ⟨hiff, htrail⟩ := valueOf_cycle_certified "main" ring hraise hreach ha
  exact ⟨_, hvalue, rfl, hiff.mp ⟨"a", _, hvalue, rfl⟩, htrail "a" _ hvalue rfl⟩

end TaggedEval
