import TaggedEval.Module.Basic

/-!
# Running a program

A program runs on a module and a host state. A lookup of a name whose body has not run yet suspends
the running program on a stack and runs the body; when the body finishes, its entry is settled and
the program on top of the stack goes on. Because the stack is explicit, lookups nest to any depth.

`Config.wellFounded_next` says that every run ends: starting a body leaves fewer bodies to start,
and every path through a program is finite.
-/

namespace TaggedEval

variable {σ α : Type}

/-- A module and the host state of the programs that run on it. -/
structure Session (σ : Type) where
  module : Module σ
  host : σ

/-- The programs that wait for the running one, whose result has type `β`. Below all of them is the
    program that was called from outside, with a result of type `α`; each one above it is the body
    of a definition, kept with its name and with what goes on when the body has finished. -/
inductive Stack (σ α : Type) : Type → Type 1 where
  | caller : Stack σ α α
  | activation (name : String) (body : Body σ) {β : Type} (resume : Outcome Value → Program σ β)
      (outer : Stack σ α β) : Stack σ α (Outcome Value)

/-- The names whose body is running, the innermost first. -/
def Stack.active {β : Type} : Stack σ α β → List String
  | caller => []
  | activation name _ _ outer => name :: outer.active

/-- The state of a run between two steps. -/
structure Config (σ α : Type) : Type 1 where
  {β : Type}
  program : Program σ β
  stack : Stack σ α β
  session : Session σ

namespace Session

def setEntry (s : Session σ) (name : String) (entry : Entry σ) : Session σ :=
  { s with module := s.module.setEntry name entry }

/-- The entry of a definition whose body has finished: the value, or the same body once more. -/
def entryAfter (body : Body σ) : Outcome Value → Entry σ
  | .ok v => .settled v
  | .error _ => .waiting body

/-- The outcome of a lookup whose body has finished: a failure is noted on its way out. -/
def noted (name : String) : Outcome Value → Outcome Value
  | .ok v => .ok v
  | .error failure => .error (failure.addNote ("while evaluating " ++ name))

end Session

namespace Config

open Session

/-- One step of a run, or the result and the session that the run leaves behind. -/
def step : Config σ α → (α × Session σ) ⊕ Config σ α
  | ⟨.finish result, .caller, s⟩ => .inl (result, s)
  | ⟨.finish result, .activation name body resume outer, s⟩ =>
    .inr ⟨resume (noted name result), outer, s.setEntry name (entryAfter body result)⟩
  | ⟨.lookup name resume, stack, s⟩ =>
    match s.module.entryAt name with
    | none => .inr ⟨resume (.error (.of (.undefinedName name))), stack, s⟩
    | some (.settled v) => .inr ⟨resume (.ok v), stack, s⟩
    | some .running => .inr ⟨resume (.error (.of (.cycle name))), stack, s⟩
    | some (.waiting body) =>
      .inr ⟨body, .activation name body resume stack, s.setEntry name .running⟩
  | ⟨.isSettled name resume, stack, s⟩ => .inr ⟨resume (s.module.isSettled name), stack, s⟩
  | ⟨.signature resume, stack, s⟩ => .inr ⟨resume s.module.signature, stack, s⟩
  | ⟨.read resume, stack, s⟩ => .inr ⟨resume s.host, stack, s⟩
  | ⟨.write host rest, stack, s⟩ => .inr ⟨rest, stack, { s with host := host }⟩

/-! ## Every run ends -/

def Next (c' c : Config σ α) : Prop :=
  c.step = .inr c'

/-- A program on a stack ends if its result on that stack does, whatever the result is and whatever
    became of the module, as long as no more bodies wait to be started than before. -/
theorem acc_of_acc_finish (n : Nat) {β : Type} (p : Program σ β) (stack : Stack σ α β)
    (s : Session σ) (hs : s.module.idle ≤ n)
    (finish : ∀ r s', s'.module.idle ≤ n → Acc Next ⟨.finish r, stack, s'⟩) :
    Acc Next ⟨p, stack, s⟩ := by
  induction n using Nat.strongRecOn generalizing β p stack s with
  | ind n ih =>
    induction p generalizing s with
    | finish r => exact finish r s hs
    | lookup name resume ihp =>
      refine ⟨_, fun c' h => ?_⟩
      simp only [Next, step] at h
      split at h <;> cases h
      · exact ihp _ s hs
      · exact ihp _ s hs
      · exact ihp _ s hs
      · rename_i body hentry
        -- The body runs with fewer idle names; when it has finished there are at most `n` again.
        have hlt := s.module.idle_setEntry_running_lt hentry
        refine ih (n - 1) (by omega) body _ _ (by simp only [setEntry]; omega) fun r s' hs' => ?_
        refine ⟨_, fun c' h => ?_⟩
        cases h
        refine ihp _ _ ?_
        have := s'.module.idle_setEntry_le name (entryAfter body r)
        simp only [setEntry]
        omega
    | isSettled name resume ihp => exact ⟨_, fun c' h => by cases h; exact ihp _ s hs⟩
    | signature resume ihp => exact ⟨_, fun c' h => by cases h; exact ihp _ s hs⟩
    | read resume ihp => exact ⟨_, fun c' h => by cases h; exact ihp _ s hs⟩
    | write host rest ihp => exact ⟨_, fun c' h => by cases h; exact ihp _ hs⟩

/-- A result ends the run once all waiting programs have gone on. -/
theorem acc_finish {β : Type} (stack : Stack σ α β) (r : β) (s : Session σ) :
    Acc Next ⟨.finish r, stack, s⟩ := by
  induction stack generalizing s with
  | caller => exact ⟨_, fun c' h => by cases h⟩
  | activation name body resume outer ih =>
    refine ⟨_, fun c' h => ?_⟩
    cases h
    exact acc_of_acc_finish _ _ _ _ (Nat.le_refl _) fun r s' _ => ih r s'

theorem wellFounded_next : WellFounded (Next (σ := σ) (α := α)) :=
  ⟨fun ⟨p, stack, s⟩ =>
    acc_of_acc_finish _ p stack s (Nat.le_refl _) fun r s' _ => acc_finish stack r s'⟩

def run (c : Config σ α) : α × Session σ :=
  match _h : c.step with
  | .inl out => out
  | .inr c' => run c'
termination_by wellFounded_next.wrap c

theorem run_of_step_inl {c : Config σ α} {out : α × Session σ} (h : c.step = .inl out) :
    c.run = out := by
  rw [run]
  split <;> simp_all

theorem run_of_step_inr {c c' : Config σ α} (h : c.step = .inr c') : c.run = c'.run := by
  rw [run]
  split <;> simp_all

end Config

namespace Session

def run (s : Session σ) (p : Program σ α) : α × Session σ :=
  Config.run ⟨p, .caller, s⟩

def valueOf (s : Session σ) (name : String) : Outcome Value × Session σ :=
  s.run (Program.valueOf name).run

/-- Looks every defined name up, in byte order, and stops at the first failure. -/
def allValues (s : Session σ) : Outcome (List (String × Value)) × Session σ :=
  s.run Program.allValues.run

end Session

end TaggedEval
