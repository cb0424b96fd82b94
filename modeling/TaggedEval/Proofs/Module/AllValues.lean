import TaggedEval.Proofs.Module.Frame
import TaggedEval.Proofs.Module.Names
import TaggedEval.Proofs.Module.Settling
import TaggedEval.Proofs.Sequence.Calls

/-!
# Looking all names up

Looking all names up is a visit of the declared names in their order: `Sequence.Visits` says which
of them are looked up, with which outcomes, and the session afterwards. Bodies may do what they like
on the way, look later names up or all names once more; what the program itself looks up is that
visit (`Visits.exists_trace`). A lookup that succeeds leaves its name settled, and settled names
stay so whatever happens, so after a success each further lookup of all names is answered without
running a body.
-/

namespace TaggedEval

variable {σ α β : Type}

open Session

/-! ## Lookups one after the other -/

/-- The lookup of a name, as a computation over sessions. -/
def Session.lookup (name : String) : Sequence.Effect (Session σ) Value :=
  ExceptT.mk fun s => s.valueOf name

@[simp] theorem Sequence.perform_lookup (name : String) (s : Session σ) :
    perform (Session.lookup name) s = s.valueOf name := rfl

namespace Sequence

variable {s s' : Session σ} {calls : List (String × Value)}

theorem Calls.settled_of_settled (h : Calls Session.lookup s calls s') {name : String} {v : Value}
    (hsettled : s.module.entryAt name = some (.settled v)) :
    s'.module.entryAt name = some (.settled v) := by
  induction h with
  | nil s => exact hsettled
  | @cons s s₁ _ other _ _ call _ ih =>
    rw [perform_lookup] at call
    have hafter := settled_valueOf hsettled other
    rw [call] at hafter
    exact ih hafter

/-- Each lookup that has succeeded leaves its name settled. -/
theorem Calls.settled (h : Calls Session.lookup s calls s') :
    ∀ e ∈ calls, s'.module.entryAt e.1 = some (.settled e.2) := by
  induction h with
  | nil s => exact List.forall_mem_nil _
  | @cons s s₁ s₂ name v calls call rest ih =>
    rw [perform_lookup] at call
    have hname := settled_of_valueOf_ok (congrArg Prod.fst call)
    rw [call] at hname
    exact List.forall_mem_cons.mpr ⟨rest.settled_of_settled hname, ih⟩

end Sequence

/-! ## The program that looks all names up -/

namespace Program

theorem valuesOf_nil_bind (next : Outcome (List (String × Value)) → Program σ β) :
    (valuesOf []).run.bind next = next (.ok []) := rfl

theorem valuesOf_cons_bind (name : String) (names : List String)
    (next : Outcome (List (String × Value)) → Program σ β) :
    (valuesOf (name :: names)).run.bind next = .lookup name fun
      | .ok v => (valuesOf names).run.bind fun answers => next (((name, v) :: ·) <$> answers)
      | .error failure => next (.error failure) := by
  rw [valuesOf, List.mapM_cons]
  apply congrArg (Program.lookup name)
  funext o
  cases o with
  | error failure => rfl
  | ok v =>
    let prepend : Outcome (List (String × Value)) → Program σ (Outcome (List (String × Value))) :=
      ExceptT.bindCont fun answers => pure ((name, v) :: answers)
    show ((valuesOf names).run.bind prepend).bind next = _
    rw [bind_assoc]
    apply congrArg
    funext answers
    cases answers <;> rfl

end Program

open Program

namespace Config

/-- The name that the program called from outside looks up in the next step. -/
def callerLookup? : Config σ α → Option String
  | ⟨.lookup name _, .caller, _⟩ => some name
  | _ => none

theorem callerLookup?_of_active {c : Config σ α} (h : c.stack.active ≠ []) :
    c.callerLookup? = none := by
  obtain ⟨p, stack, s⟩ := c
  cases stack with
  | caller => exact absurd rfl h
  | activation name body resume outer => cases p <;> rfl

theorem Above.filterMap_callerLookup? {name : String} {active : List String}
    {trace : List (Config σ α)} (h : Above (name :: active) trace) :
    trace.filterMap callerLookup? = [] := by
  rw [List.filterMap_eq_nil_iff]
  intro c hc
  apply callerLookup?_of_active
  intro hnil
  have hsuffix := h c hc
  rw [hnil, List.suffix_nil] at hsuffix
  cases hsuffix

/-- Whatever the body does, the caller itself looks up one name. -/
theorem exists_trace_caller (s : Session σ) (name : String)
    (resume : Outcome Value → Program σ α) :
    ∃ trace, Trace ⟨.lookup name resume, .caller, s⟩ trace
        ⟨resume (s.valueOf name).1, .caller, (s.valueOf name).2⟩ ∧
      trace.filterMap callerLookup? = [name] := by
  obtain ⟨higher, htrace, habove⟩ := exists_trace_lookup s name resume .caller
  refine ⟨_, htrace, ?_⟩
  show name :: higher.filterMap callerLookup? = [name]
  rw [habove.filterMap_callerLookup?]

end Config

open Config

namespace Sequence

variable {s s' : Session σ}

theorem Calls.exists_trace {calls : List (String × Value)} (h : Calls Session.lookup s calls s')
    (names : List String) (next : Outcome (List (String × Value)) → Program σ α) :
    ∃ trace, Trace ⟨(valuesOf (calls.map Prod.fst ++ names)).run.bind next, .caller, s⟩ trace
        ⟨(valuesOf names).run.bind fun answers => next ((calls ++ ·) <$> answers), .caller, s'⟩ ∧
      trace.filterMap callerLookup? = calls.map Prod.fst := by
  induction h generalizing next with
  | nil s =>
    have hnext : (fun answers => next (([] ++ ·) <$> answers)) = next := by
      funext answers
      cases answers <;> rfl
    rw [hnext]
    exact ⟨[], .nil _, rfl⟩
  | @cons s s₁ s₂ name v calls call rest ih =>
    rw [perform_lookup] at call
    rw [List.map_cons, List.cons_append, valuesOf_cons_bind]
    obtain ⟨first, hfirst, hname⟩ := exists_trace_caller s name _
    rw [call] at hfirst
    obtain ⟨trace, htrace, hlog⟩ := ih fun answers => next (((name, v) :: ·) <$> answers)
    refine ⟨first ++ trace, ?_, by rw [List.filterMap_append, hname, hlog]; rfl⟩
    have hnext : (fun answers => next (((name, v) :: calls ++ ·) <$> answers)) =
        fun answers => next (((name, v) :: ·) <$> (calls ++ ·) <$> answers) := by
      funext answers
      cases answers <;> rfl
    rw [hnext]
    exact hfirst.append htrace

/-- The names of the visit are those that the caller looks up on the way, in that order. -/
theorem Visits.exists_trace {names log : List String} {answers : Outcome (List (String × Value))}
    (h : Visits Session.lookup names s log answers s')
    (next : Outcome (List (String × Value)) → Program σ α) :
    ∃ trace, Trace ⟨(valuesOf names).run.bind next, .caller, s⟩ trace
        ⟨next answers, .caller, s'⟩ ∧ trace.filterMap callerLookup? = log := by
  cases h with
  | @all calls _ succeed order =>
    obtain ⟨trace, htrace, hlog⟩ := succeed.exists_trace [] next
    rw [List.append_nil, order, valuesOf_nil_bind] at htrace
    refine ⟨trace, ?_, hlog⟩
    rwa [show ((calls ++ ·) <$> (.ok [] : Outcome (List (String × Value)))) = .ok calls from
      congrArg _ (List.append_nil calls)] at htrace
  | @failed calls name unvisited failure s₁ _ succeed order fails =>
    rw [perform_lookup] at fails
    obtain ⟨trace, htrace, hlog⟩ := succeed.exists_trace (name :: unvisited) next
    rw [order, valuesOf_cons_bind] at htrace
    obtain ⟨last, hlast, hname⟩ := exists_trace_caller s₁ name _
    rw [fails] at hlast
    exact ⟨trace ++ last, htrace.append hlast, by rw [List.filterMap_append, hlog, hname]⟩

end Sequence

/-! ## Once more -/

/-- No body runs when the names are settled. -/
theorem exists_trace_of_settled {s : Session σ} {values : List (String × Value)}
    (h : ∀ e ∈ values, s.module.entryAt e.1 = some (.settled e.2))
    (next : Outcome (List (String × Value)) → Program σ β) (stack : Stack σ α β) :
    ∃ trace, Trace ⟨(valuesOf (values.map Prod.fst)).run.bind next, stack, s⟩ trace
        ⟨next (.ok values), stack, s⟩ ∧ ∀ c ∈ trace, c.stack.active = stack.active := by
  induction values generalizing next with
  | nil => exact ⟨[], .nil _, List.forall_mem_nil _⟩
  | cons e values ih =>
    obtain ⟨hsettled, hrest⟩ := List.forall_mem_cons.mp h
    rw [List.map_cons, valuesOf_cons_bind]
    obtain ⟨trace, htrace, hactive⟩ := ih hrest fun answers => next ((e :: ·) <$> answers)
    refine ⟨_ :: trace, .cons ?_ htrace, List.forall_mem_cons.mpr ⟨rfl, hactive⟩⟩
    exact step_lookup_of_answer (answer?_of_settled hsettled) _ stack

/-- Whatever comes up in a use that begins with this module, the names in the list count as
    evaluated, a lookup of one of them is answered with its value in one step, and a lookup of all
    names gives the list without running a body. -/
def Module.Holds (m : Module σ) (values : List (String × Value)) : Prop :=
  ∀ (α : Type) (c : Config σ α), Reachable m c →
    (∀ e ∈ values, c.session.module.isSettled e.1 = true ∧
      ∀ (β : Type) (resume : Outcome Value → Program σ β) (stack : Stack σ α β) (s : Session σ),
        c = ⟨.lookup e.1 resume, stack, s⟩ → c.step = .inr ⟨resume (.ok e.2), stack, s⟩) ∧
    ∀ (β : Type) (next : Outcome (List (String × Value)) → Program σ β) (stack : Stack σ α β)
      (s : Session σ), c = ⟨allValues.run.bind next, stack, s⟩ →
      ∃ trace, Trace c trace ⟨next (.ok values), stack, s⟩ ∧
        ∀ d ∈ trace, d.stack.active = stack.active

theorem Config.Coherent.holds {m : Module σ} {p : Program σ α} {s : Session σ}
    (h : Coherent m ⟨p, .caller, s⟩) {values : List (String × Value)}
    (hnames : values.map Prod.fst = m.signature.names)
    (hsettled : ∀ e ∈ values, s.module.entryAt e.1 = some (.settled e.2)) :
    s.module.Holds values := by
  intro α c hreach
  have hlater : ∀ e ∈ values, c.session.module.entryAt e.1 = some (.settled e.2) :=
    fun e he => h.settled_of_reachable hreach (hsettled e he)
  constructor
  · intro e he
    refine ⟨Module.isSettled_eq_true_iff.mpr ⟨e.2, hlater e he⟩, ?_⟩
    rintro β resume stack t rfl
    exact step_lookup_of_answer (answer?_of_settled (hlater e he)) resume stack
  · rintro β next stack t rfl
    obtain ⟨trace, htrace, hactive⟩ := exists_trace_of_settled hlater next stack
    rw [hnames, ← (h.of_reachable hreach).names_eq] at htrace
    -- The first step reads the names.
    exact ⟨_ :: trace, .cons rfl htrace, List.forall_mem_cons.mpr ⟨rfl, hactive⟩⟩

/-! ## The whole visit -/

theorem Sequence.Visits.exists_trace_allValues {s s' : Session σ} {log : List String}
    {answers : Outcome (List (String × Value))}
    (h : Visits Session.lookup s.module.signature.names s log answers s')
    (next : Outcome (List (String × Value)) → Program σ α) :
    ∃ trace, Trace ⟨allValues.run.bind next, .caller, s⟩ trace ⟨next answers, .caller, s'⟩ ∧
      trace.filterMap callerLookup? = log := by
  obtain ⟨trace, htrace, hlog⟩ := h.exists_trace next
  exact ⟨_ :: trace, .cons rfl htrace, hlog⟩

theorem Sequence.Visits.allValues_eq {s s' : Session σ} {log : List String}
    {answers : Outcome (List (String × Value))}
    (h : Visits Session.lookup s.module.signature.names s log answers s') :
    s.allValues = (answers, s') := by
  obtain ⟨trace, htrace, -⟩ := h.exists_trace_allValues .finish
  rw [bind_finish] at htrace
  exact htrace.steps.run_eq.trans (run_of_step_inl rfl)

/-- A caller with no lookup in progress looks all names of a module up. The names are those that are
    declared, in strictly ascending order of their bytes. They are visited in this order up to the
    first failure, and the caller itself looks no other name up on the way. The outcome is a success
    exactly if the lookups of all names succeed one after the other; it is the list of the names, in
    order, with the values that they have from then on. A failure is that of the last name visited;
    the names before it count as evaluated, and no name after it is visited. -/
theorem allValues_in_order (moduleName : String) (definitions : List (Definition σ))
    {p : Program σ α} {s : Session σ}
    (h : Reachable (.ofDefinitions moduleName definitions) ⟨p, .caller, s⟩) :
    (s.module.signature.names.Pairwise fun a b => Name.bytes a < Name.bytes b) ∧
    (∀ n, n ∈ s.module.signature.names ↔ n ∈ definitions.map Definition.name) ∧
    ∃ log answers s', s.allValues = (answers, s') ∧
      Sequence.Visits Session.lookup s.module.signature.names s log answers s' ∧
      (∀ (β : Type) (next : Outcome (List (String × Value)) → Program σ β),
        ∃ trace, Trace ⟨allValues.run.bind next, .caller, s⟩ trace ⟨next answers, .caller, s'⟩ ∧
          trace.filterMap callerLookup? = log) ∧
      ((∃ values, answers = .ok values) ↔ ∃ calls s₁, Sequence.Calls Session.lookup s calls s₁ ∧
        calls.map Prod.fst = s.module.signature.names) ∧
      (∀ values, answers = .ok values → values.map Prod.fst = s.module.signature.names ∧
        log = s.module.signature.names ∧ s'.module.Holds values) ∧
      ∀ failure, answers = .error failure → ∃ calls n unvisited s₁,
        calls.map Prod.fst ++ n :: unvisited = s.module.signature.names ∧
        log = calls.map Prod.fst ++ [n] ∧ Sequence.Calls Session.lookup s calls s₁ ∧
        s₁.valueOf n = (.error failure, s') ∧
        ∀ e ∈ calls, s'.module.isSettled e.1 = true := by
  have hcoherent := h.coherent (Module.fresh_ofDefinitions moduleName definitions)
  obtain ⟨log, answers, s', hvisits⟩ :=
    Sequence.exists_visits Session.lookup s.module.signature.names s
  refine ⟨s.module.names_ascending, h.mem_names_iff, log, answers, s', hvisits.allValues_eq,
    hvisits, fun β next => hvisits.exists_trace_allValues next, ?_, ?_, ?_⟩
  · constructor
    · rintro ⟨values, rfl⟩
      cases hvisits with
      | all succeed order => exact ⟨values, s', succeed, order⟩
    · rintro ⟨calls, s₁, succeed, order⟩
      -- Lookups that all succeed one after the other are a visit as well, and there is only one.
      have hall := (Sequence.Visits.all succeed order).allValues_eq
      rw [hvisits.allValues_eq] at hall
      cases hall
      exact ⟨calls, rfl⟩
  · rintro values rfl
    obtain ⟨trace, htrace, -⟩ := hvisits.exists_trace_allValues .finish
    have hafter := (hcoherent.of_caller (allValues.run.bind .finish)).steps htrace.steps
    cases hvisits with
    | all succeed order =>
      exact ⟨order, order, hafter.holds (order.trans hcoherent.names_eq) succeed.settled⟩
  · rintro failure rfl
    cases hvisits with
    | @failed calls n unvisited _ s₁ _ succeed order fails =>
      refine ⟨calls, n, unvisited, s₁, order, rfl, succeed, fails, fun e he => ?_⟩
      rw [Module.isSettled_eq_true_iff]
      have hsettled := settled_valueOf (succeed.settled e he) n
      rw [Sequence.perform_lookup] at fails
      rw [fails] at hsettled
      exact ⟨e.2, hsettled⟩

/-- The first name needs the second one. -/
def needsNext : List (Definition Unit) :=
  [.ofValue "b" .nil, ⟨"a", .lookup "b" .finish⟩]

/-- The visit begins with `a`, whose body looks `b` up before its turn. -/
theorem allValues_in_order_needsNext :
    ∃ values s', (⟨.ofDefinitions "main" needsNext, ()⟩ : Session Unit).allValues =
        (.ok values, s') ∧
      values.map Prod.fst = ["a", "b"] ∧ s'.module.Holds values := by
  let s : Session Unit := ⟨.ofDefinitions "main" needsNext, ()⟩
  have hnames : s.module.signature.names = ["a", "b"] := by decide
  have ha : s.module.entryAt "a" = some (.waiting (.lookup "b" .finish)) := by
    simp [s, Module.entryAt_ofDefinitions, needsNext, Definition.ofValue]
  have hb : (s.setEntry "a" .running).module.entryAt "b" =
      some (.waiting (.finish (.ok .nil))) := by
    simp [s, Module.entryAt_setEntry, Module.entryAt_ofDefinitions, needsNext, Definition.ofValue]
  let s₁ : Session Unit := (((s.setEntry "a" .running).setEntry "b" .running).setEntry "b"
    (.settled .nil)).setEntry "a" (.settled .nil)
  have hfirst : s.valueOf "a" = (.ok .nil, s₁) :=
    Evaluates.run_eq (.started ha (.started hb (.finish _ _) (.finish _ _)) (.finish _ _))
  -- When its turn comes, `b` is settled.
  have hsecond : s₁.valueOf "b" = (.ok .nil, s₁) :=
    valueOf_of_settled (by simp [s₁, Module.entryAt_setEntry])
  have hcalls : Sequence.Calls Session.lookup s [("a", .nil), ("b", .nil)] s₁ :=
    .cons hfirst (.cons hsecond (.nil s₁))
  obtain ⟨-, -, log, answers, s', hall, -, -, hiff, hok, -⟩ :=
    allValues_in_order "main" needsNext (.first (Program.finish ()) ())
  obtain ⟨values, rfl⟩ := hiff.mpr ⟨_, _, hcalls, hnames.symm⟩
  obtain ⟨horder, -, hholds⟩ := hok values rfl
  exact ⟨values, s', hall, horder.trans hnames, hholds⟩

end TaggedEval
