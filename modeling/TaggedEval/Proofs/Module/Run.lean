import Mathlib.Logic.Relation
import TaggedEval.Module.Machine

/-!
# Runs, step by step and as a whole

`Config.Steps` says that one configuration comes after another in a run. `Evaluates` reads a program
from its start to its end: it has one rule for each instruction, and in the rule for the lookup of a
waiting name the whole body of that name is evaluated first. The two agree
(`Evaluates.exists_trace`, `evaluates_iff_run_eq`), and an evaluation is the same on every stack. So
an induction on `Evaluates` is an induction on nested lookups that need not mention the stack.
-/

namespace TaggedEval

variable {σ α β γ : Type}

/-! ## Lookups that are answered at once -/

namespace Session

/-- The outcome of a lookup that runs no body. A name that waits has none yet. -/
def answer? (s : Session σ) (name : String) : Option (Outcome Value) :=
  match s.module.entryAt name with
  | none => some (.error (.of (.undefinedName name)))
  | some (.settled v) => some (.ok v)
  | some .running => some (.error (.of (.cycle name)))
  | some (.waiting _) => none

theorem answer_or_waiting (s : Session σ) (name : String) :
    (∃ o, s.answer? name = some o) ∨ ∃ body, s.module.entryAt name = some (.waiting body) := by
  unfold answer?
  split
  · exact .inl ⟨_, rfl⟩
  · exact .inl ⟨_, rfl⟩
  · exact .inl ⟨_, rfl⟩
  · exact .inr ⟨_, ‹_›⟩

@[simp] theorem setEntry_module (s : Session σ) (name : String) (entry : Entry σ) :
    (s.setEntry name entry).module = s.module.setEntry name entry := rfl

@[simp] theorem noted_ok (name : String) (v : Value) : noted name (.ok v) = .ok v := rfl

@[simp] theorem noted_error (name : String) (failure : Failure) :
    noted name (.error failure) = .error (failure.addNote ("while evaluating " ++ name)) := rfl

end Session

open Session

namespace Config

/-- The lookup that the next step answers, with its outcome: either the body of the name has just
    finished, or no body has to run. -/
def answered? : Config σ α → Option (String × Outcome Value)
  | ⟨.finish result, .activation name _ _ _, _⟩ => some (name, noted name result)
  | ⟨.lookup name _, _, s⟩ => (s.answer? name).map fun o => (name, o)
  | _ => none

theorem step_lookup_of_answer {s : Session σ} {name : String} {o : Outcome Value}
    (h : s.answer? name = some o) (resume : Outcome Value → Program σ β) (stack : Stack σ α β) :
    step ⟨.lookup name resume, stack, s⟩ = .inr ⟨resume o, stack, s⟩ := by
  unfold answer? at h
  unfold step
  split at h <;> simp_all

theorem step_lookup_of_waiting {s : Session σ} {name : String} {body : Body σ}
    (h : s.module.entryAt name = some (.waiting body)) (resume : Outcome Value → Program σ β)
    (stack : Stack σ α β) :
    step ⟨.lookup name resume, stack, s⟩ =
      .inr ⟨body, .activation name body resume stack, s.setEntry name .running⟩ := by
  unfold step
  simp only [h]

/-- One configuration is, or comes after, another in a run. -/
def Steps : Config σ α → Config σ α → Prop :=
  Relation.ReflTransGen fun c c' => c.step = .inr c'

theorem Steps.refl (c : Config σ α) : Steps c c :=
  Relation.ReflTransGen.refl

theorem Steps.trans {c₁ c₂ c₃ : Config σ α} (h₁ : Steps c₁ c₂) (h₂ : Steps c₂ c₃) : Steps c₁ c₃ :=
  Relation.ReflTransGen.trans h₁ h₂

theorem Steps.head {c₁ c₂ c₃ : Config σ α} (h₁ : c₁.step = .inr c₂) (h₂ : Steps c₂ c₃) :
    Steps c₁ c₃ :=
  Relation.ReflTransGen.head h₁ h₂

theorem Steps.run_eq {c c' : Config σ α} (h : Steps c c') : c.run = c'.run := by
  induction h with
  | refl => rfl
  | tail _ hstep ih => rw [ih, run_of_step_inr hstep]

/-- A stretch of a run, with the configurations it goes through: the first one is among them and the
    last one is not. -/
inductive Trace : Config σ α → List (Config σ α) → Config σ α → Prop
  | nil (c : Config σ α) : Trace c [] c
  | cons {c c₁ c' : Config σ α} {trace : List (Config σ α)} (hstep : c.step = .inr c₁)
      (rest : Trace c₁ trace c') : Trace c (c :: trace) c'

theorem Trace.single {c c' : Config σ α} (hstep : c.step = .inr c') : Trace c [c] c' :=
  .cons hstep (.nil c')

theorem Trace.append {c₁ c₂ c₃ : Config σ α} {trace trace' : List (Config σ α)}
    (h : Trace c₁ trace c₂) (h' : Trace c₂ trace' c₃) : Trace c₁ (trace ++ trace') c₃ := by
  induction h with
  | nil => exact h'
  | cons hstep _ ih => exact .cons hstep (ih h')

theorem Trace.steps {c c' : Config σ α} {trace : List (Config σ α)} (h : Trace c trace c') :
    Steps c c' := by
  induction h with
  | nil c => exact .refl c
  | cons hstep _ ih => exact .head hstep ih

/-- All the while the bodies of these names stay at the bottom of the stack. -/
def Above (active : List String) (trace : List (Config σ α)) : Prop :=
  ∀ c ∈ trace, active <:+ c.stack.active

theorem Above.append {active : List String} {trace trace' : List (Config σ α)}
    (h : Above active trace) (h' : Above active trace') : Above active (trace ++ trace') :=
  List.forall_mem_append.mpr ⟨h, h'⟩

theorem exists_trace_head {active : List String} {c c₁ c' : Config σ α}
    (hactive : active <:+ c.stack.active) (hstep : c.step = .inr c₁)
    (h : ∃ trace, Trace c₁ trace c' ∧ Above active trace) :
    ∃ trace, Trace c trace c' ∧ Above active trace := by
  obtain ⟨trace, htrace, habove⟩ := h
  exact ⟨c :: trace, .cons hstep htrace, List.forall_mem_cons.mpr ⟨hactive, habove⟩⟩

theorem Above.of_cons {name : String} {active : List String} {trace : List (Config σ α)}
    (h : Above (name :: active) trace) : Above active trace :=
  fun c hc => (List.suffix_cons name active).trans (h c hc)

end Config

open Config

/-! ## Whole evaluations -/

/-- A program that starts on a session ends with a result and leaves a session behind. -/
inductive Evaluates : {β : Type} → Session σ → Program σ β → β → Session σ → Prop
  | finish {β : Type} (s : Session σ) (r : β) : Evaluates s (.finish r) r s
  | answered {β : Type} {s s' : Session σ} {name : String} {o : Outcome Value}
      {resume : Outcome Value → Program σ β} {r : β} (answer : s.answer? name = some o)
      (rest : Evaluates s (resume o) r s') : Evaluates s (.lookup name resume) r s'
  -- While the body is evaluated its entry is running; the program goes on with the noted outcome.
  | started {β : Type} {s s₁ s' : Session σ} {name : String} {body : Body σ} {o : Outcome Value}
      {resume : Outcome Value → Program σ β} {r : β}
      (waiting : s.module.entryAt name = some (.waiting body))
      (inner : Evaluates (s.setEntry name .running) body o s₁)
      (rest : Evaluates (s₁.setEntry name (entryAfter body o)) (resume (noted name o)) r s') :
      Evaluates s (.lookup name resume) r s'
  | isSettled {β : Type} {s s' : Session σ} {name : String} {resume : Bool → Program σ β} {r : β}
      (rest : Evaluates s (resume (s.module.isSettled name)) r s') :
      Evaluates s (.isSettled name resume) r s'
  | signature {β : Type} {s s' : Session σ} {resume : Signature → Program σ β} {r : β}
      (rest : Evaluates s (resume s.module.signature) r s') : Evaluates s (.signature resume) r s'
  | read {β : Type} {s s' : Session σ} {resume : σ → Program σ β} {r : β}
      (rest : Evaluates s (resume s.host) r s') : Evaluates s (.read resume) r s'
  | write {β : Type} {s s' : Session σ} {host : σ} {p : Program σ β} {r : β}
      (rest : Evaluates { s with host := host } p r s') : Evaluates s (.write host p) r s'

/-- Every program ends, and starting it with few names to start leaves few names to start. -/
theorem exists_evaluates (n : Nat) (p : Program σ β) (s : Session σ) (hs : s.module.idle ≤ n) :
    ∃ r s', Evaluates s p r s' ∧ s'.module.idle ≤ n := by
  -- The outer induction is on the bodies left to start, the inner one on the program.
  induction n using Nat.strongRecOn generalizing β p s with
  | ind n ih =>
    induction p generalizing s with
    | finish r => exact ⟨r, s, .finish s r, hs⟩
    | lookup name resume ihp =>
      rcases s.answer_or_waiting name with ⟨o, hanswer⟩ | ⟨body, hwaiting⟩
      · obtain ⟨r, s', hrest, hidle⟩ := ihp o s hs
        exact ⟨r, s', .answered hanswer hrest, hidle⟩
      · have hlt := s.module.idle_setEntry_running_lt hwaiting
        obtain ⟨o, s₁, hinner, hidle₁⟩ := ih (n - 1) (by omega) body (s.setEntry name .running)
          (by rw [setEntry_module]; omega)
        -- Settling the entry gives back at most the one idle name that starting it took.
        have hle := s₁.module.idle_setEntry_le name (entryAfter body o)
        obtain ⟨r, s', hrest, hidle⟩ := ihp (noted name o) (s₁.setEntry name (entryAfter body o))
          (by rw [setEntry_module]; omega)
        exact ⟨r, s', .started hwaiting hinner hrest, hidle⟩
    | isSettled name resume ihp =>
      obtain ⟨r, s', hrest, hidle⟩ := ihp _ s hs
      exact ⟨r, s', .isSettled hrest, hidle⟩
    | signature resume ihp =>
      obtain ⟨r, s', hrest, hidle⟩ := ihp _ s hs
      exact ⟨r, s', .signature hrest, hidle⟩
    | read resume ihp =>
      obtain ⟨r, s', hrest, hidle⟩ := ihp _ s hs
      exact ⟨r, s', .read hrest, hidle⟩
    | write host rest ihp =>
      obtain ⟨r, s', hrest, hidle⟩ := ihp { s with host := host } hs
      exact ⟨r, s', .write hrest, hidle⟩

/-- A lookup of a waiting name goes through what its body goes through, one activation higher. -/
theorem exists_trace_of_waiting {s s₁ : Session σ} {name : String} {body : Body σ}
    {o : Outcome Value} {resume : Outcome Value → Program σ β} {stack : Stack σ α β}
    {trace : List (Config σ α)} (waiting : s.module.entryAt name = some (.waiting body))
    (inner : Trace ⟨body, .activation name body resume stack, s.setEntry name .running⟩ trace
      ⟨.finish o, .activation name body resume stack, s₁⟩)
    (above : Above (name :: stack.active) trace) :
    ∃ higher, Trace ⟨.lookup name resume, stack, s⟩ (⟨.lookup name resume, stack, s⟩ :: higher)
        ⟨resume (noted name o), stack, s₁.setEntry name (entryAfter body o)⟩ ∧
      Above (name :: stack.active) higher := by
  let stop : Config σ α := ⟨.finish o, .activation name body resume stack, s₁⟩
  have hstart := step_lookup_of_waiting waiting resume stack
  refine ⟨trace ++ [stop], .cons hstart (inner.append (.single rfl)), above.append ?_⟩
  intro c hc
  obtain rfl := List.mem_singleton.mp hc
  exact List.suffix_refl _

theorem steps_of_waiting {s s₁ : Session σ} {name : String} {body : Body σ} {o : Outcome Value}
    {resume : Outcome Value → Program σ β} {stack : Stack σ α β}
    (waiting : s.module.entryAt name = some (.waiting body))
    (inner : Steps ⟨body, .activation name body resume stack, s.setEntry name .running⟩
      ⟨.finish o, .activation name body resume stack, s₁⟩) :
    Steps ⟨.lookup name resume, stack, s⟩
      ⟨resume (noted name o), stack, s₁.setEntry name (entryAfter body o)⟩ := by
  have hstart := step_lookup_of_waiting waiting resume stack
  exact .head hstart (inner.trans (.head rfl (.refl _)))

/-- An evaluation is a stretch of a run, on whatever stack it happens and whatever comes after. The
    programs of that stack wait meanwhile. -/
theorem Evaluates.exists_trace {s s' : Session σ} {p : Program σ γ} {r : γ}
    (h : Evaluates s p r s') (next : γ → Program σ β) {α : Type} (stack : Stack σ α β) :
    ∃ trace, Trace ⟨p.bind next, stack, s⟩ trace ⟨next r, stack, s'⟩ ∧
      Above stack.active trace := by
  induction h generalizing α β with
  | finish s r => exact ⟨[], .nil _, List.forall_mem_nil _⟩
  | answered answer rest ih =>
    exact exists_trace_head (List.suffix_refl _) (step_lookup_of_answer answer _ _) (ih next stack)
  | @started _ _ _ _ own body _ resume _ waiting inner rest ihInner ihRest =>
    -- The body runs one activation higher, with nothing after it.
    have hbody := ihInner .finish (.activation own body (fun o => (resume o).bind next) stack)
    rw [Program.bind_finish] at hbody
    obtain ⟨trace, htrace, habove⟩ := hbody
    obtain ⟨higher, hlookup, hhigher⟩ := exists_trace_of_waiting waiting htrace habove
    obtain ⟨trace', htrace', habove'⟩ := ihRest next stack
    refine ⟨_, hlookup.append htrace', Above.append ?_ habove'⟩
    exact List.forall_mem_cons.mpr ⟨List.suffix_refl _, hhigher.of_cons⟩
  | isSettled rest ih => exact exists_trace_head (List.suffix_refl _) rfl (ih next stack)
  | signature rest ih => exact exists_trace_head (List.suffix_refl _) rfl (ih next stack)
  | read rest ih => exact exists_trace_head (List.suffix_refl _) rfl (ih next stack)
  | write rest ih => exact exists_trace_head (List.suffix_refl _) rfl (ih next stack)

theorem Evaluates.steps_bind {s s' : Session σ} {p : Program σ γ} {r : γ} (h : Evaluates s p r s')
    (next : γ → Program σ β) {α : Type} (stack : Stack σ α β) :
    Steps ⟨p.bind next, stack, s⟩ ⟨next r, stack, s'⟩ := by
  obtain ⟨trace, htrace, -⟩ := h.exists_trace next stack
  exact htrace.steps

theorem Evaluates.steps {s s' : Session σ} {p : Program σ β} {r : β} (h : Evaluates s p r s')
    {α : Type} (stack : Stack σ α β) : Steps ⟨p, stack, s⟩ ⟨.finish r, stack, s'⟩ := by
  have hsteps := h.steps_bind .finish stack
  rwa [Program.bind_finish] at hsteps

theorem Evaluates.run_eq {s s' : Session σ} {p : Program σ β} {r : β} (h : Evaluates s p r s') :
    s.run p = (r, s') := by
  rw [Session.run, (h.steps .caller).run_eq]
  exact run_of_step_inl rfl

theorem evaluates_run (s : Session σ) (p : Program σ β) :
    Evaluates s p (s.run p).1 (s.run p).2 := by
  obtain ⟨r, s', h, -⟩ := exists_evaluates s.module.idle p s (Nat.le_refl _)
  rw [h.run_eq]
  exact h

/-- Evaluation is a function, and `Session.run` computes it. -/
theorem evaluates_iff_run_eq {s s' : Session σ} {p : Program σ β} {r : β} :
    Evaluates s p r s' ↔ s.run p = (r, s') := by
  refine ⟨Evaluates.run_eq, fun h => ?_⟩
  have hrun := evaluates_run s p
  rwa [h] at hrun

/-! ## Lookups -/

namespace Session

theorem valueOf_of_answer {s : Session σ} {name : String} {o : Outcome Value}
    (h : s.answer? name = some o) : s.valueOf name = (o, s) :=
  (Evaluates.answered h (.finish s o)).run_eq

theorem valueOf_of_waiting {s : Session σ} {name : String} {body : Body σ}
    (h : s.module.entryAt name = some (.waiting body)) :
    s.valueOf name =
      (noted name ((s.setEntry name .running).run body).1,
        ((s.setEntry name .running).run body).2.setEntry name
          (entryAfter body ((s.setEntry name .running).run body).1)) :=
  (Evaluates.started h (evaluates_run _ body) (.finish _ _)).run_eq

end Session

/-- Between a lookup and its outcome everything happens above the program that asked. -/
theorem exists_trace_lookup (s : Session σ) (name : String)
    (resume : Outcome Value → Program σ β) (stack : Stack σ α β) :
    ∃ higher, Trace ⟨.lookup name resume, stack, s⟩ (⟨.lookup name resume, stack, s⟩ :: higher)
        ⟨resume (s.valueOf name).1, stack, (s.valueOf name).2⟩ ∧
      Above (name :: stack.active) higher := by
  rcases s.answer_or_waiting name with ⟨o, hanswer⟩ | ⟨body, hwaiting⟩
  · rw [valueOf_of_answer hanswer]
    exact ⟨[], .single (step_lookup_of_answer hanswer _ _), List.forall_mem_nil _⟩
  · rw [valueOf_of_waiting hwaiting]
    have hrun := evaluates_run (s.setEntry name .running) body
    obtain ⟨trace, htrace, habove⟩ :=
      hrun.exists_trace .finish (.activation name body resume stack)
    rw [Program.bind_finish] at htrace
    exact exists_trace_of_waiting hwaiting htrace habove

theorem steps_lookup (s : Session σ) (name : String) (resume : Outcome Value → Program σ β)
    (stack : Stack σ α β) :
    Steps ⟨.lookup name resume, stack, s⟩
      ⟨resume (s.valueOf name).1, stack, (s.valueOf name).2⟩ := by
  obtain ⟨higher, htrace, -⟩ := exists_trace_lookup s name resume stack
  exact htrace.steps

end TaggedEval
