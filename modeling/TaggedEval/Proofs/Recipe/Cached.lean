import TaggedEval.Proofs.Module.Activation
import TaggedEval.Proofs.Recipe.Unfolding

/-!
# Lookups with and without a cache

In a module of recipes every lookup, whatever was looked up before and however deep it is nested,
has the outcome that `Recipes.valueOf` computes from nothing but the names under evaluation. The
invariant behind it speaks of the known values only (`Recipes.Sound`): a known value is the outcome of
the evaluation without cache on every path that avoids all known names. A path of running names is
such a path. So a value that was found deep inside some evaluation stays right when that evaluation
fails, and it does not hide a cycle.
-/

namespace TaggedEval

variable {σ α β : Type}

open Session

/-! ## Bodies of recipes -/

namespace Recipe

theorem follow_of_body_eq_finish {r : Recipe} {result : Outcome Value}
    (h : (r.body : Body σ) = .finish result) (outcome : String → Outcome Value) :
    r.follow outcome = result := by
  cases r with
  | value v => cases h; rfl
  | fail failure => cases h; rfl
  | lookup name resume => rw [body] at h; cases h

theorem eq_value_of_body_eq_finish {r : Recipe} {v : Value}
    (h : (r.body : Body σ) = .finish (.ok v)) : r = .value v := by
  cases r with
  | value w => cases h; rfl
  | fail failure => cases h
  | lookup name resume => rw [body] at h; cases h

theorem eq_lookup_of_body_eq {r : Recipe} {name : String}
    {resume : Outcome Value → Program σ (Outcome Value)} (h : r.body = .lookup name resume) :
    ∃ next, r = .lookup name next ∧ (∀ v, resume (.ok v) = (next v).body) ∧
      ∀ failure, resume (.error failure) = .finish (.error failure) := by
  cases r with
  | value v => cases h
  | fail failure => cases h
  | lookup name' next =>
    rw [body] at h
    cases h
    exact ⟨next, rfl, fun _ => rfl, fun _ => rfl⟩

theorem body_isAside (r : Recipe) : (r.body : Body σ).isAside = false := by
  cases r with
  | value v => rfl
  | fail failure => rfl
  | lookup name resume => rw [body]; rfl

/-- How far a recipe has come: it has gone on with known values, and perhaps has stopped at a lookup
    that fails. -/
inductive Reaches (known : String → Option Value) (outcome : String → Outcome Value)
    (r : Recipe) : Recipe → Prop
  | start : Reaches known outcome r r
  | answered {name : String} {next : Value → Recipe} {v : Value}
      (h : Reaches known outcome r (.lookup name next)) (hknown : known name = some v) :
      Reaches known outcome r (next v)
  | failed {name : String} {next : Value → Recipe} {failure : Failure}
      (h : Reaches known outcome r (.lookup name next))
      (hfailure : outcome name = .error failure) : Reaches known outcome r (.fail failure)

variable {known known' : String → Option Value} {outcome : String → Outcome Value}
  {r rest : Recipe}

theorem Reaches.mono (h : Reaches known outcome r rest)
    (hle : ∀ name v, known name = some v → known' name = some v) :
    Reaches known' outcome r rest := by
  induction h with
  | start => exact .start
  | answered _ hknown ih => exact .answered ih (hle _ _ hknown)
  | failed _ hfailure ih => exact .failed ih hfailure

/-- Following the recipe comes to the same as following what it has reached. -/
theorem Reaches.follow_eq (h : Reaches known outcome r rest)
    (hknown : ∀ name v, known name = some v → outcome name = .ok v) :
    r.follow outcome = rest.follow outcome := by
  induction h with
  | start => rfl
  | answered _ hv ih => rw [ih, follow, hknown _ _ hv]
  | failed _ hfailure ih => simp only [ih, follow, hfailure]

/-- A recipe that has not failed yet has met known values only, so other outcomes of the unknown
    names make no difference. -/
theorem Reaches.eq_fail_or_follow_eq (h : Reaches known outcome r rest)
    (other : String → Outcome Value)
    (hother : ∀ name w, known name = some w → other name = .ok w) :
    (∃ failure, rest = .fail failure) ∨ r.follow other = rest.follow other := by
  induction h with
  | start => exact .inr rfl
  | answered _ hknown ih =>
    rcases ih with ⟨failure, hfail⟩ | heq
    · cases hfail
    · exact .inr (by rw [heq, follow, hother _ _ hknown])
  | failed _ _ _ => exact .inl ⟨_, rfl⟩

theorem Reaches.follow_eq_of_value {v : Value} (h : Reaches known outcome r (.value v))
    (other : String → Outcome Value)
    (hother : ∀ name w, known name = some w → other name = .ok w) :
    r.follow other = .ok v := by
  rcases h.eq_fail_or_follow_eq other hother with ⟨failure, hfail⟩ | heq
  · cases hfail
  · rw [heq, follow]

end Recipe

/-! ## Known values -/

/-- The value of a name, once its entry is settled. -/
def Module.known (m : Module σ) (name : String) : Option Value :=
  match m.entryAt name with
  | some (.settled v) => some v
  | _ => none

namespace Module

theorem known_eq_some_iff {m : Module σ} {name : String} {v : Value} :
    m.known name = some v ↔ m.entryAt name = some (.settled v) := by
  unfold known
  split <;> simp_all

theorem known_of_running {m : Module σ} {name : String}
    (h : m.entryAt name = some .running) : m.known name = none := by
  rw [known, h]

/-- An entry that was not settled and is not settled now makes no difference. -/
theorem known_setEntry_of_not_settled {m : Module σ} {name : String}
    (hbefore : m.known name = none) (entry : Entry σ) (hafter : ∀ v, entry ≠ .settled v) :
    (m.setEntry name entry).known = m.known := by
  funext other
  by_cases hname : name = other
  · rw [← hname, hbefore, known, entryAt_setEntry_self]
    cases entry with
    | settled v => exact absurd rfl (hafter v)
    | waiting body => rfl
    | running => rfl
  · rw [known, entryAt_setEntry_of_ne m hname, known]

theorem known_setEntry_settled (m : Module σ) (name : String) (v : Value) :
    (m.setEntry name (.settled v)).known =
      fun other => if name = other then some v else m.known other := by
  funext other
  by_cases hname : name = other
  · rw [if_pos hname, ← hname, known, entryAt_setEntry_self]
  · rw [if_neg hname, known, entryAt_setEntry_of_ne m hname, known]

end Module

namespace Recipes

/-- Known values are right on every path without known names. -/
def Sound (recipes : Recipes) (known : String → Option Value) : Prop :=
  ∀ name v, known name = some v →
    ∀ path : List String, (∀ q ∈ path, known q = none) → recipes.valueOf path name = .ok v

/-- A value that a recipe has reached by known values can be added to them. -/
theorem Sound.settle {recipes : Recipes} {known : String → Option Value}
    (h : recipes.Sound known) {name : String} {r : Recipe} {v : Value}
    {outcome : String → Outcome Value} (hrecipe : recipes[name]? = some r)
    (hname : known name = none) (hreach : r.Reaches known outcome (.value v)) :
    recipes.Sound fun other => if name = other then some v else known other := by
  -- The paths to consider avoid one name more, so the values known before need no new argument.
  intro other w hw path hpath
  have hout : ∀ q ∈ path, known q = none := by
    intro q hq
    have hq' := hpath q hq
    by_cases heq : name = q
    · rw [← heq, hname]
    · simpa only [if_neg heq] using hq'
  simp only at hw
  by_cases hother : name = other
  · rw [if_pos hother] at hw
    cases hw
    rw [← hother]
    have hfresh : name ∉ path := by
      intro hmem
      have := hpath name hmem
      simp at this
    -- Below `name` the path avoids the values that its recipe has met.
    have hmet : ∀ q u, known q = some u → recipes.valueOf (name :: path) q = .ok u := by
      intro q u hq
      refine h q u hq (name :: path) fun q' hq' => ?_
      rcases List.mem_cons.mp hq' with rfl | hmem
      · exact hname
      · exact hout q' hmem
    have hfollow := hreach.follow_eq_of_value (recipes.valueOf (name :: path)) hmet
    rw [valueOf_of_not_mem hrecipe hfresh, hfollow, noted_ok]
  · rw [if_neg hother] at hw
    exact h other w hw path hout

end Recipes

/-! ## Recipes on the stack -/

/-- Each body on the stack is that of a recipe, and the program that runs for it is what is left of
    the recipe after lookups of known names; `p` runs for the innermost one. The program of the
    caller is free. -/
def Stack.Follows (recipes : Recipes) (known : String → Option Value) {β : Type} :
    Stack σ α β → Program σ β → Prop
  | caller, _ => True
  | activation name _ resume outer, p =>
    (∃ r rest, recipes[name]? = some r ∧ p = rest.body ∧
      r.Reaches known (recipes.valueOf (name :: outer.active)) rest) ∧
    outer.Follows recipes known (.lookup name resume)

namespace Stack

variable {recipes : Recipes} {known known' : String → Option Value}

theorem Follows.mono {stack : Stack σ α β} {p : Program σ β} (h : stack.Follows recipes known p)
    (hle : ∀ name v, known name = some v → known' name = some v) :
    stack.Follows recipes known' p := by
  induction stack with
  | caller => trivial
  | activation name body resume outer ih =>
    obtain ⟨⟨r, rest, hrecipe, hp, hreach⟩, houter⟩ := h
    exact ⟨⟨r, rest, hrecipe, hp, hreach.mono hle⟩, ih houter⟩

theorem Follows.answer {stack : Stack σ α β} {name : String}
    {resume : Outcome Value → Program σ β} {o : Outcome Value}
    (h : stack.Follows recipes known (.lookup name resume))
    (ho : o = recipes.valueOf stack.active name)
    (hknown : ∀ v, o = .ok v → known name = some v) :
    stack.Follows recipes known (resume o) := by
  cases stack with
  | caller => trivial
  | activation own body resume' outer =>
    obtain ⟨⟨r, rest, hrecipe, hp, hreach⟩, houter⟩ := h
    obtain ⟨next, rfl, hok, herror⟩ := Recipe.eq_lookup_of_body_eq hp.symm
    -- A value lets the recipe go on; a failure ends its body with the same failure.
    cases o with
    | ok v => exact ⟨⟨r, next v, hrecipe, hok v, hreach.answered (hknown v rfl)⟩, houter⟩
    | error failure =>
      exact ⟨⟨r, .fail failure, hrecipe, herror failure, hreach.failed ho.symm⟩, houter⟩

end Stack

namespace Config

/-- What holds of every configuration over a module of recipes. -/
structure Faithful (moduleName : String) (definitions : List (String × Recipe))
    (c : Config σ α) : Prop where
  coherent : Coherent (Recipes.module moduleName definitions) c
  sound : (Recipes.ofDefinitions definitions).Sound c.session.module.known
  follows : c.stack.Follows (.ofDefinitions definitions) c.session.module.known c.program

variable {moduleName : String} {definitions : List (String × Recipe)}

theorem Coherent.recipe_of_waiting {c : Config σ α}
    (h : Coherent (Recipes.module moduleName definitions) c) {name : String} {body : Body σ}
    (hentry : c.session.module.entryAt name = some (.waiting body)) :
    ∃ r, (Recipes.ofDefinitions definitions)[name]? = some r ∧ body = r.body := by
  have hbody := h.waiting_body name body hentry
  rw [Recipes.entryAt_module, Option.map_eq_some_iff] at hbody
  obtain ⟨r, hr, heq⟩ := hbody
  cases heq
  exact ⟨r, hr, rfl⟩

theorem Coherent.recipe_eq_none_iff {c : Config σ α}
    (h : Coherent (Recipes.module moduleName definitions) c) (name : String) :
    (Recipes.ofDefinitions definitions)[name]? = none ↔
      c.session.module.entryAt name = none := by
  rw [h.undefined_iff name, Recipes.entryAt_module, Option.map_eq_none_iff]

theorem Coherent.known_eq_none_of_mem {m : Module σ} {c : Config σ α} (h : Coherent m c)
    {name : String} (hname : name ∈ c.stack.active) : c.session.module.known name = none :=
  Module.known_of_running ((h.running_iff name).mpr hname)

theorem known_of_answer_ok {s : Session σ} {name : String} {v : Value}
    (h : s.answer? name = some (.ok v)) : s.module.known name = some v := by
  unfold answer? at h
  split at h <;> rename_i hentry <;> cases h
  exact Module.known_eq_some_iff.mpr hentry

theorem Faithful.answer_eq {p : Program σ β} {stack : Stack σ α β} {s : Session σ} {name : String}
    {o : Outcome Value} (h : Faithful moduleName definitions ⟨p, stack, s⟩)
    (hanswer : s.answer? name = some o) :
    o = (Recipes.ofDefinitions definitions).valueOf stack.active name := by
  have hundefined := h.coherent.recipe_eq_none_iff name
  unfold answer? at hanswer
  split at hanswer <;> rename_i hentry <;> cases hanswer
  · exact (Recipes.valueOf_of_undefined (hundefined.mpr hentry) _).symm
  · -- The names on the stack are running, so the path avoids all known values.
    have hsound := h.sound name _ (Module.known_eq_some_iff.mpr hentry) stack.active
    exact (hsound fun q hq => h.coherent.known_eq_none_of_mem hq).symm
  · obtain ⟨r, hr⟩ := Option.ne_none_iff_exists'.mp fun hnone => by
      rw [hundefined.mp hnone] at hentry
      cases hentry
    exact (Recipes.valueOf_of_mem hr ((h.coherent.running_iff name).mp hentry)).symm

theorem Faithful.stop_eq {name : String} {body : Body σ} {result : Outcome Value}
    {resume : Outcome Value → Program σ β} {outer : Stack σ α β} {s : Session σ}
    (h : Faithful moduleName definitions ⟨.finish result, .activation name body resume outer, s⟩) :
    noted name result = (Recipes.ofDefinitions definitions).valueOf outer.active name := by
  obtain ⟨⟨r, rest, hrecipe, hp, hreach⟩, -⟩ := h.follows
  have hfresh : name ∉ outer.active := by
    have hnodup := h.coherent.active_nodup
    rw [Stack.active, List.nodup_cons] at hnodup
    exact hnodup.1
  -- All names on the stack, `name` among them, are unknown, so the known values are those that
  -- the evaluation without cache gives below `name`.
  have hfollow := hreach.follow_eq fun q v hq =>
    h.sound q v hq _ fun q' hq' => h.coherent.known_eq_none_of_mem hq'
  rw [Recipe.follow_of_body_eq_finish hp.symm] at hfollow
  rw [Recipes.valueOf_of_not_mem hrecipe hfresh]
  exact congrArg (noted name) hfollow.symm

theorem Faithful.start {s : Session σ} {name : String} {body : Body σ}
    {resume : Outcome Value → Program σ β} {stack : Stack σ α β}
    (h : Faithful moduleName definitions ⟨.lookup name resume, stack, s⟩)
    (hentry : s.module.entryAt name = some (.waiting body)) :
    Faithful moduleName definitions
      ⟨body, .activation name body resume stack, s.setEntry name .running⟩ := by
  have hunknown : s.module.known name = none := by rw [Module.known, hentry]
  have hknown := Module.known_setEntry_of_not_settled hunknown .running fun v h => by cases h
  obtain ⟨r, hrecipe, hbody⟩ := h.coherent.recipe_of_waiting hentry
  refine ⟨h.coherent.start hentry, ?_, ?_⟩
  · rw [setEntry_module, hknown]
    exact h.sound
  · rw [setEntry_module, hknown]
    exact ⟨⟨r, r, hrecipe, hbody, .start⟩, h.follows⟩

theorem Faithful.stop {name : String} {body : Body σ} {result : Outcome Value}
    {resume : Outcome Value → Program σ β} {outer : Stack σ α β} {s : Session σ}
    (h : Faithful moduleName definitions ⟨.finish result, .activation name body resume outer, s⟩) :
    Faithful moduleName definitions
      ⟨resume (noted name result), outer, s.setEntry name (entryAfter body result)⟩ := by
  have hcoherent := h.coherent.stop (resume (noted name result))
  have hunknown : s.module.known name = none :=
    h.coherent.known_eq_none_of_mem List.mem_cons_self
  have hstop := h.stop_eq
  obtain ⟨⟨r, rest, hrecipe, hp, hreach⟩, houter⟩ := h.follows
  cases result with
  | ok v =>
    have hknown := s.module.known_setEntry_settled name v
    obtain rfl := Recipe.eq_value_of_body_eq_finish hp.symm
    refine ⟨hcoherent, ?_, ?_⟩
    · simp only [setEntry_module, entryAfter, hknown]
      exact h.sound.settle hrecipe hunknown hreach
    · simp only [setEntry_module, entryAfter, hknown]
      -- What was known stays known, and the value of `name` is known from now on.
      have hmore : ∀ q w, s.module.known q = some w →
          (if name = q then some v else s.module.known q) = some w := by
        intro q w hq
        by_cases heq : name = q
        · rw [← heq, hunknown] at hq
          cases hq
        · rw [if_neg heq, hq]
      exact (houter.mono hmore).answer hstop fun w hw => by cases hw; rw [if_pos rfl]
  | error failure =>
    have hknown := Module.known_setEntry_of_not_settled hunknown (.waiting body)
      fun v h => by cases h
    refine ⟨hcoherent, ?_, ?_⟩
    · simp only [setEntry_module, entryAfter, hknown]
      exact h.sound
    · simp only [setEntry_module, entryAfter, hknown]
      exact houter.answer hstop fun w hw => by cases hw

theorem Faithful.step {c c' : Config σ α} (h : Faithful moduleName definitions c)
    (hstep : c.step = .inr c') : Faithful moduleName definitions c' := by
  have hcoherent := h.coherent.step hstep
  cases transition_of_step hstep with
  | stop name body result resume outer s => exact h.stop
  | @answer _ s name o hanswer resume stack =>
    refine ⟨hcoherent, h.sound, h.follows.answer (h.answer_eq hanswer) fun v hv => ?_⟩
    rw [hv] at hanswer
    exact known_of_answer_ok hanswer
  | start hentry resume stack => exact h.start hentry
  | aside haside p' stack m host host' =>
    refine ⟨hcoherent, h.sound, ?_⟩
    cases stack with
    | caller => trivial
    | activation name body resume outer =>
      -- No recipe has such an instruction.
      obtain ⟨⟨r, rest, -, hp, -⟩, -⟩ := h.follows
      simp only at hp
      rw [hp, Recipe.body_isAside] at haside
      cases haside

theorem Faithful.steps {c c' : Config σ α} (h : Faithful moduleName definitions c)
    (hsteps : Steps c c') : Faithful moduleName definitions c' := by
  induction hsteps with
  | refl => exact h
  | tail _ hstep ih => exact ih.step hstep

theorem Faithful.of_caller {α' : Type} {p : Program σ α} {s : Session σ}
    (h : Faithful moduleName definitions ⟨p, .caller, s⟩) (p' : Program σ α') :
    Faithful moduleName definitions ⟨p', .caller, s⟩ where
  coherent := h.coherent.of_caller p'
  sound := h.sound
  follows := trivial

theorem Reachable.faithful {c : Config σ α}
    (h : Reachable (Recipes.module moduleName definitions) c) :
    Faithful moduleName definitions c := by
  have hfresh : (Recipes.module (σ := σ) moduleName definitions).Fresh :=
    Module.fresh_ofDefinitions _ _
  induction h with
  | first p host =>
    refine ⟨coherent_first hfresh p host, fun name v hv => ?_, trivial⟩
    obtain ⟨body, hbody⟩ := hfresh name _ (Module.known_eq_some_iff.mp hv)
    cases hbody
  | next _ hstep ih => exact ih.step hstep
  | again _ hend p ih =>
    rw [eq_of_step_inl hend] at ih
    exact ih.of_caller p

/-- A lookup on any stack has the outcome of the evaluation without cache, on the path of the names
    whose bodies are on the stack. -/
theorem Faithful.valueOf_eq {name : String} {resume : Outcome Value → Program σ β}
    {stack : Stack σ α β} {s : Session σ}
    (h : Faithful moduleName definitions ⟨.lookup name resume, stack, s⟩) :
    (s.valueOf name).1 = (Recipes.ofDefinitions definitions).valueOf stack.active name := by
  rcases s.answer_or_waiting name with ⟨o, hanswer⟩ | ⟨body, hwaiting⟩
  · rw [valueOf_of_answer hanswer]
    exact h.answer_eq hanswer
  · rw [valueOf_of_waiting hwaiting]
    exact ((h.start hwaiting).steps ((evaluates_run _ body).steps _)).stop_eq

end Config

/-! ## Calls from outside -/

/-- A call from outside a module. -/
inductive Call where
  | valueOf (name : String)
  | allValues

namespace Session

/-- The session that a call leaves behind, whether it succeeds or fails. -/
def perform (s : Session σ) : Call → Session σ
  | .valueOf name => (s.valueOf name).2
  | .allValues => s.allValues.2

/-- The session after several calls, one after the other. -/
def after (s : Session σ) (calls : List Call) : Session σ :=
  calls.foldl perform s

end Session

namespace Config

theorem Reachable.run {m : Module σ} {s : Session σ} {p : Program σ α}
    (h : Reachable m ⟨p, .caller, s⟩) {α' : Type} (p' : Program σ α') :
    Reachable m ⟨p', .caller, (s.run p).2⟩ :=
  .again (h.steps ((evaluates_run s p).steps .caller)) rfl p'

theorem reachable_after {m : Module σ} (calls : List Call) (s : Session σ)
    (h : ∀ {α : Type} (p : Program σ α), Reachable m ⟨p, .caller, s⟩) (p : Program σ α) :
    Reachable m ⟨p, .caller, s.after calls⟩ := by
  -- Each call is a run of its own, so it may start any program on what it leaves behind.
  induction calls generalizing s with
  | nil => exact h p
  | cons call calls ih =>
    refine ih (s.perform call) fun p' => ?_
    cases call with
    | valueOf name => exact (h (Program.valueOf name).run).run p'
    | allValues => exact (h Program.allValues.run).run p'

end Config

/-- In a module of recipes, after any calls that succeeded or failed, a lookup has exactly the
    outcome of the evaluation without cache: the same value, or the same cause, message and
    notes. -/
theorem valueOf_after_calls (moduleName : String) (definitions : List (String × Recipe)) (host : σ)
    (calls : List Call) (name : String) :
    ((Session.after ⟨Recipes.module moduleName definitions, host⟩ calls).valueOf name).1 =
      (Recipes.ofDefinitions definitions).valueOf [] name := by
  have hreach := Config.reachable_after (m := Recipes.module moduleName definitions) calls
    ⟨Recipes.module moduleName definitions, host⟩ (fun p => .first p host)
    (Program.lookup name .finish)
  exact hreach.faithful.valueOf_eq

end TaggedEval
