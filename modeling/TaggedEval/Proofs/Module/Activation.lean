import Mathlib.Data.List.Nodup
import TaggedEval.Proofs.Module.Definitions
import TaggedEval.Proofs.Module.Run

/-!
# The stack and the running entries

An entry is `running` exactly as long as the body of its name is on the stack, and a body is on the
stack at most once. `Config.Coherent` states this together with what it rests on: the bodies on the
stack and the bodies in waiting entries are those that the module was built with. Each kind of step
keeps it (`Config.Coherent.step`), so it holds whenever a body or a caller is executing
(`Config.Reachable.coherent`).
-/

namespace TaggedEval

variable {σ α β : Type}

open Session

/-! ## What one step does to the module -/

/-- Whether the next instruction neither ends the program nor looks a name up. Such an instruction
    changes no entry. -/
def Program.isAside : Program σ β → Bool
  | .finish _ => false
  | .lookup _ _ => false
  | _ => true

/-- The bodies on the stack with their names, the innermost first. -/
def Stack.activations {β : Type} : Stack σ α β → List (String × Body σ)
  | caller => []
  | activation name body _ outer => (name, body) :: outer.activations

namespace Config

/-- The four kinds of steps. -/
inductive Transition : Config σ α → Config σ α → Prop
  | stop {β : Type} (name : String) (body : Body σ) (result : Outcome Value)
      (resume : Outcome Value → Program σ β) (outer : Stack σ α β) (s : Session σ) :
      Transition ⟨.finish result, .activation name body resume outer, s⟩
        ⟨resume (noted name result), outer, s.setEntry name (entryAfter body result)⟩
  | answer {β : Type} {s : Session σ} {name : String} {o : Outcome Value}
      (h : s.answer? name = some o) (resume : Outcome Value → Program σ β) (stack : Stack σ α β) :
      Transition ⟨.lookup name resume, stack, s⟩ ⟨resume o, stack, s⟩
  | start {β : Type} {s : Session σ} {name : String} {body : Body σ}
      (h : s.module.entryAt name = some (.waiting body)) (resume : Outcome Value → Program σ β)
      (stack : Stack σ α β) :
      Transition ⟨.lookup name resume, stack, s⟩
        ⟨body, .activation name body resume stack, s.setEntry name .running⟩
  | aside {β : Type} {p : Program σ β} (h : p.isAside = true) (p' : Program σ β)
      (stack : Stack σ α β) (m : Module σ) (host host' : σ) :
      Transition ⟨p, stack, ⟨m, host⟩⟩ ⟨p', stack, ⟨m, host'⟩⟩

theorem transition_of_step {c c' : Config σ α} (h : c.step = .inr c') : Transition c c' := by
  obtain ⟨p, stack, s⟩ := c
  cases p with
  | finish result =>
    cases stack with
    | caller => cases h
    | activation name body resume outer =>
      cases h
      exact .stop name body result resume outer s
  | lookup name resume =>
    rcases s.answer_or_waiting name with ⟨o, hanswer⟩ | ⟨body, hwaiting⟩
    · rw [step_lookup_of_answer hanswer] at h
      cases h
      exact .answer hanswer resume stack
    · rw [step_lookup_of_waiting hwaiting] at h
      cases h
      exact .start hwaiting resume stack
  | isSettled name resume => cases h; exact .aside rfl _ stack _ _ _
  | signature resume => cases h; exact .aside rfl _ stack _ _ _
  | read resume => cases h; exact .aside rfl _ stack _ _ _
  | write host rest => cases h; exact .aside rfl _ stack _ _ _

/-! ## What comes up while a module is in use -/

/-- The configurations that come up while a module is in use: a caller runs any program on the
    module as it was built, and when that program has ended, any other on what it left behind. -/
inductive Reachable (m : Module σ) : {α : Type} → Config σ α → Prop
  | first {α : Type} (p : Program σ α) (host : σ) : Reachable m ⟨p, .caller, ⟨m, host⟩⟩
  | next {α : Type} {c c' : Config σ α} (h : Reachable m c) (hstep : c.step = .inr c') :
      Reachable m c'
  | again {α α' : Type} {c : Config σ α} {r : α} {s : Session σ} (h : Reachable m c)
      (hend : c.step = .inl (r, s)) (p : Program σ α') : Reachable m ⟨p, .caller, s⟩

theorem Reachable.steps {m : Module σ} {c c' : Config σ α} (h : Reachable m c)
    (hsteps : Steps c c') : Reachable m c' := by
  induction hsteps with
  | refl => exact h
  | tail _ hstep ih => exact ih.next hstep

/-! ## Entries and stack agree -/

/-- The entries of a module that was built as `m` agree with the bodies on the stack. -/
structure Coherent (m : Module σ) (c : Config σ α) : Prop where
  running_iff : ∀ name, c.session.module.entryAt name = some .running ↔ name ∈ c.stack.active
  active_nodup : c.stack.active.Nodup
  -- A failure puts the body of the activation back, so that body must be the original one.
  active_body : ∀ a ∈ c.stack.activations, m.entryAt a.1 = some (.waiting a.2)
  waiting_body : ∀ name body, c.session.module.entryAt name = some (.waiting body) →
    m.entryAt name = some (.waiting body)
  -- No name is declared or forgotten.
  undefined_iff : ∀ name, c.session.module.entryAt name = none ↔ m.entryAt name = none

theorem coherent_first {m : Module σ} (hm : m.Fresh) (p : Program σ α) (host : σ) :
    Coherent m ⟨p, .caller, ⟨m, host⟩⟩ where
  running_iff name := by
    constructor
    · intro h
      obtain ⟨body, hbody⟩ := hm name _ h
      cases hbody
    · intro h
      cases h
  active_nodup := List.nodup_nil
  active_body := fun a ha => by cases ha
  waiting_body := fun _ _ h => h
  undefined_iff := fun _ => Iff.rfl

theorem Coherent.congr {m : Module σ} {p : Program σ β} {stack : Stack σ α β} {s : Session σ}
    (h : Coherent m ⟨p, stack, s⟩) (p' : Program σ β) {s' : Session σ}
    (hs : s'.module = s.module) : Coherent m ⟨p', stack, s'⟩ := by
  obtain ⟨hrunning, hnodup, hactive, hwaiting, hundefined⟩ := h
  refine ⟨?_, hnodup, hactive, ?_, ?_⟩
  · simpa only [hs] using hrunning
  · simpa only [hs] using hwaiting
  · simpa only [hs] using hundefined

theorem Coherent.start {m : Module σ} {s : Session σ} {name : String} {body : Body σ}
    {resume : Outcome Value → Program σ β} {stack : Stack σ α β}
    (h : Coherent m ⟨.lookup name resume, stack, s⟩)
    (hentry : s.module.entryAt name = some (.waiting body)) :
    Coherent m ⟨body, .activation name body resume stack, s.setEntry name .running⟩ where
  running_iff other := by
    have hother : s.module.entryAt other = some .running ↔ other ∈ stack.active :=
      h.running_iff other
    show (s.module.setEntry name .running).entryAt other = some .running ↔
      other ∈ name :: stack.active
    rw [Module.entryAt_setEntry, List.mem_cons]
    by_cases hname : name = other
    · simp [hname]
    · rw [if_neg hname, hother]
      simp [Ne.symm hname]
  active_nodup := by
    show (name :: stack.active).Nodup
    apply List.Nodup.cons _ h.active_nodup
    -- A name on the stack has a running entry, and this one waits.
    intro hmem
    have hrunning : s.module.entryAt name = some .running := (h.running_iff name).mpr hmem
    rw [hentry] at hrunning
    cases hrunning
  active_body := by
    intro a ha
    -- The new activation carries the body of the entry, which waited until now.
    rcases List.mem_cons.mp ha with rfl | hmem
    · exact h.waiting_body name body hentry
    · exact h.active_body a hmem
  waiting_body := by
    intro other body' h'
    rw [setEntry_module, Module.entryAt_setEntry] at h'
    by_cases hname : name = other
    · rw [if_pos hname] at h'
      cases h'
    · rw [if_neg hname] at h'
      exact h.waiting_body other body' h'
  undefined_iff := by
    intro other
    show (s.module.setEntry name .running).entryAt other = none ↔ m.entryAt other = none
    rw [Module.entryAt_setEntry, ← h.undefined_iff other]
    by_cases hname : name = other
    · -- The entry was there before, waiting.
      rw [if_pos hname, ← hname, hentry]
      simp
    · rw [if_neg hname]

theorem Coherent.stop {m : Module σ} {s : Session σ} {name : String} {body : Body σ}
    {result : Outcome Value} {resume : Outcome Value → Program σ β} {outer : Stack σ α β}
    (h : Coherent m ⟨.finish result, .activation name body resume outer, s⟩)
    (p : Program σ β) : Coherent m ⟨p, outer, s.setEntry name (entryAfter body result)⟩ where
  running_iff other := by
    have hother : s.module.entryAt other = some .running ↔ other ∈ name :: outer.active :=
      h.running_iff other
    have hnodup : name ∉ outer.active := (List.nodup_cons.mp h.active_nodup).1
    rw [List.mem_cons] at hother
    show (s.module.setEntry name (entryAfter body result)).entryAt other = some .running ↔
      other ∈ outer.active
    rw [Module.entryAt_setEntry]
    by_cases hname : name = other
    · -- The body was on the stack once, so it is there no more.
      rw [if_pos hname, ← hname]
      cases result <;> simp [entryAfter, hnodup]
    · rw [if_neg hname, hother]
      simp [Ne.symm hname]
  active_nodup := (List.nodup_cons.mp h.active_nodup).2
  active_body := fun a ha => h.active_body a (List.mem_cons_of_mem _ ha)
  waiting_body := by
    intro other body' h'
    rw [setEntry_module, Module.entryAt_setEntry] at h'
    by_cases hname : name = other
    · rw [if_pos hname] at h'
      cases result with
      | ok v => cases h'
      | error failure =>
        -- A failure puts the body of the activation back.
        cases h'
        rw [← hname]
        exact h.active_body (name, body) List.mem_cons_self
    · rw [if_neg hname] at h'
      exact h.waiting_body other body' h'
  undefined_iff := by
    intro other
    show (s.module.setEntry name (entryAfter body result)).entryAt other = none ↔
      m.entryAt other = none
    rw [Module.entryAt_setEntry]
    by_cases hname : name = other
    · rw [if_pos hname, ← hname, h.active_body (name, body) List.mem_cons_self]
      simp
    · rw [if_neg hname]
      exact h.undefined_iff other

theorem Coherent.of_caller {m : Module σ} {p : Program σ α} {s : Session σ}
    (h : Coherent m ⟨p, .caller, s⟩) (p' : Program σ β) : Coherent m ⟨p', .caller, s⟩ where
  running_iff := h.running_iff
  active_nodup := List.nodup_nil
  active_body := fun a ha => by cases ha
  waiting_body := h.waiting_body
  undefined_iff := h.undefined_iff

theorem Coherent.step {m : Module σ} {c c' : Config σ α} (h : Coherent m c)
    (hstep : c.step = .inr c') : Coherent m c' := by
  cases transition_of_step hstep with
  | stop name body result resume outer s => exact Coherent.stop h _
  | answer _ resume stack => exact h.congr _ rfl
  | start hentry resume stack => exact Coherent.start h hentry
  -- A write changes the host state, which the invariant does not mention.
  | aside _ p' stack module host host' => exact h.congr _ rfl

theorem eq_of_step_inl {c : Config σ α} {r : α} {s : Session σ} (h : c.step = .inl (r, s)) :
    c = ⟨.finish r, .caller, s⟩ := by
  obtain ⟨p, stack, s'⟩ := c
  cases p with
  | finish result =>
    cases stack with
    | caller => cases h; rfl
    | activation name body resume outer => cases h
  | lookup name resume =>
    rcases s'.answer_or_waiting name with ⟨o, hanswer⟩ | ⟨body, hwaiting⟩
    · rw [step_lookup_of_answer hanswer] at h
      cases h
    · rw [step_lookup_of_waiting hwaiting] at h
      cases h
  | isSettled name resume => cases h
  | signature resume => cases h
  | read resume => cases h
  | write host rest => cases h

theorem Coherent.steps {m : Module σ} {c c' : Config σ α} (h : Coherent m c)
    (hsteps : Steps c c') : Coherent m c' := by
  induction hsteps with
  | refl => exact h
  | tail _ hstep ih => exact ih.step hstep

/-- What comes up in a use is coherent if each beginning of one is. -/
theorem Reachable.coherent_of {m m' : Module σ}
    (hfirst : ∀ {α : Type} (p : Program σ α) (host : σ), Coherent m ⟨p, .caller, ⟨m', host⟩⟩)
    {c : Config σ α} (h : Reachable m' c) : Coherent m c := by
  -- The induction is on the steps of all programs that have been run so far.
  induction h with
  | first p host => exact hfirst p host
  | next _ hstep ih => exact ih.step hstep
  | again _ hend p ih =>
    rw [eq_of_step_inl hend] at ih
    exact ih.of_caller p

theorem Reachable.coherent {m : Module σ} (hm : m.Fresh) {c : Config σ α} (h : Reachable m c) :
    Coherent m c :=
  h.coherent_of (coherent_first hm)

/-- A module that a caller has used can be used further. -/
theorem Coherent.of_reachable {m : Module σ} {p : Program σ α} {s : Session σ}
    (h : Coherent m ⟨p, .caller, s⟩) {c : Config σ β} (hreach : Reachable s.module c) :
    Coherent m c :=
  hreach.coherent_of fun p' _ => (h.of_caller p').congr p' rfl

/-! ## Consequences for the programs that run -/

end Config

end TaggedEval
