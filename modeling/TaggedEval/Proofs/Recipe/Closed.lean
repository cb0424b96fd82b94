import Mathlib.Logic.Relation
import TaggedEval.Proofs.Module.Settling
import TaggedEval.Proofs.Recipe.Cached

/-!
# Known values rest on known values

In a module of recipes the settled entries are closed under the lookups of their recipes, at every
point of every use: a settled recipe, run again on the settled values, looks up settled names only
and gives its settled value (`Recipe.RestsOn`). An entry is settled by a body that has gone on with
known values from its start to its end, and known values stay known; so neither a failure around it
nor a cycle can take away what it rests on.
-/

namespace TaggedEval

open Session Relation

variable {σ α : Type}

/-! ## Recipes on known values -/

namespace Recipe

/-- The names that a recipe looks up, when the outcomes of its lookups are given by a function. -/
def asked (outcome : String → Outcome Value) : Recipe → List String
  | value _ => []
  | fail _ => []
  | lookup name resume => name :: match outcome name with
    | .ok v => (resume v).asked outcome
    | .error _ => []

theorem mem_asked_lookup (outcome : String → Outcome Value) (name : String)
    (resume : Value → Recipe) : name ∈ (lookup name resume).asked outcome := by
  rw [asked]
  exact List.mem_cons_self

theorem asked_lookup_of_ok {outcome : String → Outcome Value} {name : String} {v : Value}
    (h : outcome name = .ok v) (resume : Value → Recipe) :
    (lookup name resume).asked outcome = name :: (resume v).asked outcome := by
  simp only [asked, h]

/-- The recipe gives the value from known values alone: with any outcomes for the unknown names, it
    looks up known names only. -/
def RestsOn (known : String → Option Value) (r : Recipe) (v : Value) : Prop :=
  ∀ outcome : String → Outcome Value, (∀ q u, known q = some u → outcome q = .ok u) →
    r.follow outcome = .ok v ∧ ∀ q ∈ r.asked outcome, ∃ u, known q = some u

variable {known known' : String → Option Value} {r rest : Recipe} {v : Value}

theorem RestsOn.mono (h : r.RestsOn known v)
    (hle : ∀ q u, known q = some u → known' q = some u) : r.RestsOn known' v := by
  intro outcome houtcome
  obtain ⟨hfollow, hasked⟩ := h outcome fun q u hq => houtcome q u (hle q u hq)
  refine ⟨hfollow, fun q hq => ?_⟩
  obtain ⟨u, hu⟩ := hasked q hq
  exact ⟨u, hle q u hu⟩

/-- A recipe that has not failed has looked up known names, and looks up what is left to do. -/
theorem Reaches.eq_fail_or_asked {outcome : String → Outcome Value}
    (h : Reaches known outcome r rest) {other : String → Outcome Value}
    (hother : ∀ q u, known q = some u → other q = .ok u) :
    (∃ failure, rest = .fail failure) ∨
      ∀ q ∈ r.asked other, (∃ u, known q = some u) ∨ q ∈ rest.asked other := by
  induction h with
  | start => exact .inr fun q hq => .inr hq
  | @answered name next v _ hknown ih =>
    rcases ih with ⟨failure, hfail⟩ | hasked
    · cases hfail
    · refine .inr fun q hq => ?_
      rcases hasked q hq with hu | hrest
      · exact .inl hu
      · rw [asked_lookup_of_ok (hother name v hknown), List.mem_cons] at hrest
        rcases hrest with rfl | hlater
        · exact .inl ⟨v, hknown⟩
        · exact .inr hlater
  | failed _ _ _ => exact .inl ⟨_, rfl⟩

theorem Reaches.restsOn {outcome : String → Outcome Value}
    (h : Reaches known outcome r (.value v)) : r.RestsOn known v := by
  intro other hother
  refine ⟨h.follow_eq_of_value other hother, fun q hq => ?_⟩
  rcases h.eq_fail_or_asked hother with ⟨failure, hfail⟩ | hasked
  · cases hfail
  · rcases hasked q hq with hu | hnone
    · exact hu
    · cases hnone

theorem evaluates_body {s : Session σ} {outcome : String → Outcome Value}
    (houtcome : ∀ q u, s.module.known q = some u → outcome q = .ok u) (r : Recipe)
    (hfollow : r.follow outcome = .ok v)
    (hasked : ∀ q ∈ r.asked outcome, ∃ u, s.module.known q = some u) :
    Evaluates s r.body (.ok v) s := by
  induction r with
  | value w =>
    cases hfollow
    exact .finish s _
  | fail failure => cases hfollow
  | lookup name next ih =>
    obtain ⟨u, hu⟩ := hasked name (mem_asked_lookup outcome name next)
    have hname := houtcome name u hu
    rw [asked_lookup_of_ok hname] at hasked
    simp only [follow, hname] at hfollow
    rw [body]
    apply Evaluates.answered (answer?_of_settled (Module.known_eq_some_iff.mp hu))
    exact ih u hfollow fun q hq => hasked q (List.mem_cons_of_mem name hq)

/-- The body of the recipe, run once more, gives the value and starts no other body. -/
theorem RestsOn.run_eq {s : Session σ} (h : r.RestsOn s.module.known v) :
    s.run r.body = (.ok v, s) := by
  have houtcome : ∀ q u, s.module.known q = some u → (s.valueOf q).1 = .ok u := by
    intro q u hq
    rw [valueOf_of_settled (Module.known_eq_some_iff.mp hq)]
  obtain ⟨hfollow, hasked⟩ := h _ houtcome
  exact (evaluates_body houtcome r hfollow hasked).run_eq

end Recipe

/-! ## Settled entries -/

namespace Config

variable {moduleName : String} {definitions : List (String × Recipe)}

theorem Faithful.restsOn_of_completed {c : Config σ α} (h : Faithful moduleName definitions c)
    {name : String} {v : Value} (hcompleted : c.completed? = some (name, v)) :
    ∃ r, (Recipes.ofDefinitions definitions)[name]? = some r ∧
      r.RestsOn c.session.module.known v := by
  obtain ⟨β, body, resume, outer, s, rfl⟩ := eq_of_completed? hcompleted
  -- The body has come to its value by known values.
  obtain ⟨⟨r, rest, hrecipe, hp, hreach⟩, -⟩ := h.follows
  obtain rfl := Recipe.eq_value_of_body_eq_finish hp.symm
  exact ⟨r, hrecipe, hreach.restsOn⟩

theorem Coherent.known_step_iff {m : Module σ} {c c' : Config σ α} (h : Coherent m c)
    (hstep : c.step = .inr c') (name : String) (v : Value) :
    c'.session.module.known name = some v ↔
      c.session.module.known name = some v ∨ c.completed? = some (name, v) := by
  rw [Module.known_eq_some_iff, Module.known_eq_some_iff, h.settled_step_iff hstep]

/-- What is settled at some point rests on what is settled there. -/
theorem Reachable.restsOn {c : Config σ α}
    (h : Reachable (Recipes.module moduleName definitions) c) {name : String} {v : Value}
    (hknown : c.session.module.known name = some v) :
    ∃ r, (Recipes.ofDefinitions definitions)[name]? = some r ∧
      r.RestsOn c.session.module.known v := by
  induction h with
  | first p host =>
    have hfresh := Module.fresh_ofDefinitions moduleName
      (definitions.map fun d => (⟨d.1, d.2.body⟩ : Definition σ))
    obtain ⟨body, hbody⟩ := hfresh name _ (Module.known_eq_some_iff.mp hknown)
    cases hbody
  | @next _ c c' hreach hstep ih =>
    have hiff := hreach.faithful.coherent.known_step_iff hstep
    have hbefore : ∃ r, (Recipes.ofDefinitions definitions)[name]? = some r ∧
        r.RestsOn c.session.module.known v := by
      rcases (hiff name v).mp hknown with hknown | hcompleted
      · exact ih hknown
      · exact hreach.faithful.restsOn_of_completed hcompleted
    -- A step takes nothing away from the known values.
    obtain ⟨r, hrecipe, hrests⟩ := hbefore
    exact ⟨r, hrecipe, hrests.mono fun q u hq => (hiff q u).mpr (.inl hq)⟩
  | again hreach hend p ih =>
    rw [eq_of_step_inl hend] at ih
    exact ih hknown

end Config

/-- The recipe of the first name, with these outcomes of its lookups, looks the second name up. -/
def Recipes.AsksFor (recipes : Recipes) (outcome : String → Outcome Value) (a b : String) : Prop :=
  ∃ r, recipes[a]? = some r ∧ b ∈ r.asked outcome

/-- At every point of every use of a module of recipes: the body of a settled name, run again on the
    session of that point, gives the settled value and changes nothing. On the settled values, and
    whatever the other names would give, its recipe gives that value and looks up settled names
    only; and so do the recipes of those names, however far one goes on. -/
theorem settled_rests_on_settled (moduleName : String) (definitions : List (String × Recipe))
    {c : Config σ α} (h : Config.Reachable (Recipes.module moduleName definitions) c) {n : String}
    {v : Value} (hsettled : c.session.module.entryAt n = some (.settled v)) :
    ∃ r, (Recipes.ofDefinitions definitions)[n]? = some r ∧
      c.session.run r.body = (.ok v, c.session) ∧
      ∀ outcome : String → Outcome Value,
        (∀ q u, c.session.module.entryAt q = some (.settled u) → outcome q = .ok u) →
        r.follow outcome = .ok v ∧
        (∀ q ∈ r.asked outcome, ∃ u, c.session.module.entryAt q = some (.settled u)) ∧
        ∀ q, TransGen ((Recipes.ofDefinitions definitions).AsksFor outcome) n q →
          ∃ u, c.session.module.entryAt q = some (.settled u) := by
  simp only [← Module.known_eq_some_iff] at hsettled ⊢
  obtain ⟨r, hrecipe, hrests⟩ := h.restsOn hsettled
  refine ⟨r, hrecipe, hrests.run_eq, fun outcome houtcome => ?_⟩
  obtain ⟨hfollow, hasked⟩ := hrests outcome houtcome
  -- One step from a settled name leads to a settled name.
  have hstep {a b : String} {w : Value} (ha : c.session.module.known a = some w)
      (hasks : (Recipes.ofDefinitions definitions).AsksFor outcome a b) :
      ∃ u, c.session.module.known b = some u := by
    obtain ⟨r', hrecipe', hmem⟩ := hasks
    obtain ⟨r'', hrecipe'', hrests'⟩ := h.restsOn ha
    cases hrecipe'.symm.trans hrecipe''
    exact (hrests' outcome houtcome).2 b hmem
  refine ⟨hfollow, hasked, fun q hq => ?_⟩
  induction hq with
  | single hasks => exact hstep hsettled hasks
  | tail _ hasks ih =>
    obtain ⟨w, hw⟩ := ih
    exact hstep hw hasks

/-- `total` needs `part`, which needs `leaf`, and then a name that is not defined. -/
def brokenTotal : List (String × Recipe) :=
  [("total", .lookup "part" fun _ => .lookup "gone" .value), ("part", .lookup "leaf" .value),
    ("leaf", .value .nil)]

/-- While `total` is still running and about to fail, `part` is settled, and so is what it rests
    on. -/
theorem settled_rests_on_settled_brokenTotal :
    ∃ c : Config Unit (Outcome Value),
      Config.Reachable (Recipes.module "main" brokenTotal) c ∧ c.stack.active = ["total"] ∧
      c.session.module.entryAt "part" = some (.settled .nil) ∧
      c.session.run (Recipe.lookup "leaf" .value).body = (.ok .nil, c.session) ∧
      ∃ u, c.session.module.entryAt "leaf" = some (.settled u) := by
  let m : Module Unit := Recipes.module "main" brokenTotal
  have htotal : m.entryAt "total" =
      some (.waiting (Recipe.lookup "part" fun _ => .lookup "gone" .value).body) := by
    simp [m, Recipes.entryAt_module, Recipes.getElem?_ofDefinitions, brokenTotal]
  have hpart : (m.setEntry "total" .running).entryAt "part" =
      some (.waiting (Recipe.lookup "leaf" .value).body) := by
    simp [m, Module.entryAt_setEntry, Recipes.entryAt_module, Recipes.getElem?_ofDefinitions,
      brokenTotal]
  have hleaf : ((m.setEntry "total" .running).setEntry "part" .running).entryAt "leaf" =
      some (.waiting (Recipe.value .nil).body) := by
    simp [m, Module.entryAt_setEntry, Recipes.entryAt_module, Recipes.getElem?_ofDefinitions,
      brokenTotal]
  rw [Recipe.body] at htotal
  rw [Recipe.body] at hpart
  rw [Recipe.body] at hleaf
  -- Three bodies are started, one inside the other; the inner two end with a value.
  have hreach := (((((Config.Reachable.first (.lookup "total" .finish) ()).next
    (Config.step_lookup_of_waiting htotal _ _)).next
    (Config.step_lookup_of_waiting hpart _ _)).next
    (Config.step_lookup_of_waiting hleaf _ _)).next rfl).next rfl
  have hsettled := Module.entryAt_setEntry_self
    ((((m.setEntry "total" .running).setEntry "part" .running).setEntry "leaf" .running).setEntry
      "leaf" (.settled .nil)) "part" (.settled .nil)
  have hrecipe : (Recipes.ofDefinitions brokenTotal)["part"]? = some (.lookup "leaf" .value) := by
    simp [Recipes.getElem?_ofDefinitions, brokenTotal]
  obtain ⟨r, hr, hrun, hrests⟩ := settled_rests_on_settled "main" brokenTotal hreach hsettled
  cases hrecipe.symm.trans hr
  obtain ⟨-, hasked, -⟩ := hrests (fun q => (Session.valueOf _ q).1) fun q u hq => by
    rw [valueOf_of_settled hq]
  exact ⟨_, hreach, rfl, hsettled, hrun, hasked "leaf" (Recipe.mem_asked_lookup _ _ _)⟩

end TaggedEval
