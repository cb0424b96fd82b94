import TaggedEval.Proofs.Module.Activation

/-!
# A name is settled once

A use of a module is followed here together with its past: every configuration that came up before,
over all programs that were run on the module. What the past tells about a name is whether its body
has completed with a value, and the entry of the name is settled with that value exactly from then
on (`Run.settled_iff`). A body that completes is on the stack, and a name on the stack is not
settled, so no body completes twice (`Run.completions_le_one`).
-/

namespace TaggedEval

variable {σ α β : Type}

open Session

/-! ## Completions -/

namespace Config

/-- The name whose body ends with a value in the next step, and that value. -/
def completed? : Config σ α → Option (String × Value)
  | ⟨.finish result, .activation name _ _ _, _⟩ => result.toOption.map fun v => (name, v)
  | _ => none

/-- Whether the body of the name ends with a value in the next step. -/
def completes (name : String) (c : Config σ α) : Bool :=
  c.completed?.any fun e => e.1 = name

theorem completes_iff {c : Config σ α} {name : String} :
    c.completes name = true ↔ ∃ v, c.completed? = some (name, v) := by
  unfold completes
  cases c.completed? with
  | none => simp
  | some e =>
    obtain ⟨other, v⟩ := e
    simp

theorem completed?_of_isAside {p : Program σ β} (h : p.isAside = true) (stack : Stack σ α β)
    (s : Session σ) : completed? ⟨p, stack, s⟩ = none := by
  cases p with
  | finish result => cases h
  | lookup name resume => cases h
  | isSettled name resume => rfl
  | signature resume => rfl
  | read resume => rfl
  | write host rest => rfl

theorem eq_of_completed? {c : Config σ α} {name : String} {v : Value}
    (h : c.completed? = some (name, v)) :
    ∃ (β : Type) (body : Body σ) (resume : Outcome Value → Program σ β) (outer : Stack σ α β)
      (s : Session σ), c = ⟨.finish (.ok v), .activation name body resume outer, s⟩ := by
  unfold completed? at h
  split at h
  · rename_i result own body β resume outer s
    cases result with
    | error failure => cases h
    | ok w =>
      cases h
      exact ⟨β, body, resume, outer, s, rfl⟩
  · cases h

theorem mem_active_of_completed? {c : Config σ α} {name : String} {v : Value}
    (h : c.completed? = some (name, v)) : name ∈ c.stack.active := by
  obtain ⟨β, body, resume, outer, s, rfl⟩ := eq_of_completed? h
  exact List.mem_cons_self

/-- A step settles the entry of the name whose body completes in it, and no other. -/
theorem Coherent.settled_step_iff {m : Module σ} {c c' : Config σ α} (h : Coherent m c)
    (hstep : c.step = .inr c') (name : String) (v : Value) :
    c'.session.module.entryAt name = some (.settled v) ↔
      c.session.module.entryAt name = some (.settled v) ∨ c.completed? = some (name, v) := by
  cases transition_of_step hstep with
  | stop own body result resume outer s =>
    have hown : s.module.entryAt own = some .running := (h.running_iff own).mpr List.mem_cons_self
    show (s.module.setEntry own (entryAfter body result)).entryAt name = some (.settled v) ↔
      s.module.entryAt name = some (.settled v) ∨
        (result.toOption.map fun w => (own, w)) = some (name, v)
    rw [Module.entryAt_setEntry]
    by_cases hname : own = name
    · -- The entry was running until now, so only the result can settle it.
      rw [if_pos hname, ← hname, hown]
      cases result <;> simp [entryAfter, Except.toOption]
    · rw [if_neg hname]
      cases result <;> simp [hname, Except.toOption]
  | answer hanswer resume stack => simp [completed?]
  | @start _ s own body hentry resume stack =>
    show (s.module.setEntry own .running).entryAt name = some (.settled v) ↔
      s.module.entryAt name = some (.settled v) ∨ none = some (name, v)
    rw [Module.entryAt_setEntry]
    by_cases hname : own = name
    · -- The entry that is started was waiting.
      rw [if_pos hname, ← hname, hentry]
      simp
    · rw [if_neg hname]
      simp
  | aside haside p' stack module host host' => simp [completed?_of_isAside haside]

/-- Whatever happens in a further use, a settled name stays so. -/
theorem Coherent.settled_of_reachable {m : Module σ} {p : Program σ α} {s : Session σ}
    (h : Coherent m ⟨p, .caller, s⟩) {c : Config σ β} (hreach : Reachable s.module c)
    {name : String} {v : Value} (hsettled : s.module.entryAt name = some (.settled v)) :
    c.session.module.entryAt name = some (.settled v) := by
  induction hreach with
  | first p' host => exact hsettled
  | next hbefore hstep ih =>
    exact ((h.of_reachable hbefore).settled_step_iff hstep name v).mpr (.inl ih)
  | again _ hend p' ih =>
    rw [eq_of_step_inl hend] at ih
    exact ih

end Config

/-! ## Runs with their past -/

/-- What came up at some point while a module was in use. -/
structure Moment (σ : Type) : Type 1 where
  {α : Type}
  config : Config σ α

/-- A use of a module `m` has come to a configuration; the past holds all earlier ones, the latest
    first. A caller runs a program on the module as it was built, and when that program has ended,
    another one on what it left behind. -/
inductive Run (m : Module σ) : List (Moment σ) → {α : Type} → Config σ α → Prop
  | first {α : Type} (p : Program σ α) (host : σ) : Run m [] ⟨p, .caller, ⟨m, host⟩⟩
  | next {α : Type} {past : List (Moment σ)} {c c' : Config σ α} (h : Run m past c)
      (hstep : c.step = .inr c') : Run m (⟨c⟩ :: past) c'
  | again {α α' : Type} {past : List (Moment σ)} {c : Config σ α} {r : α} {s : Session σ}
      (h : Run m past c) (hend : c.step = .inl (r, s)) (p : Program σ α') :
      Run m (⟨c⟩ :: past) ⟨p, .caller, s⟩

/-- The body of the name has ended with the value. -/
def Completed (past : List (Moment σ)) (name : String) (v : Value) : Prop :=
  ∃ b ∈ past, b.config.completed? = some (name, v)

theorem completed_cons {b : Moment σ} {past : List (Moment σ)} {name : String} {v : Value} :
    Completed (b :: past) name v ↔
      b.config.completed? = some (name, v) ∨ Completed past name v := by
  simp [Completed]

namespace Run

variable {m : Module σ} {past : List (Moment σ)} {c : Config σ α}

theorem reachable (h : Run m past c) : Config.Reachable m c := by
  induction h with
  | first p host => exact .first p host
  | next _ hstep ih => exact .next ih hstep
  | again _ hend p ih => exact .again ih hend p

/-- The settled entries are the completions of the past. -/
theorem settled_iff (hm : m.Fresh) (h : Run m past c) (name : String) (v : Value) :
    c.session.module.entryAt name = some (.settled v) ↔ Completed past name v := by
  induction h with
  | first p host =>
    constructor
    · intro hsettled
      obtain ⟨body, hbody⟩ := hm name _ hsettled
      cases hbody
    · rintro ⟨b, hb, -⟩
      cases hb
  | next hrun hstep ih =>
    rw [(hrun.reachable.coherent hm).settled_step_iff hstep, completed_cons, ih]
    exact or_comm
  | again hrun hend p ih =>
    -- A program that ends leaves its session as it is, and no body ends with it.
    rw [Config.eq_of_step_inl hend] at ih ⊢
    rw [completed_cons]
    simpa [Config.completed?] using ih

theorem not_completed_of_active (hm : m.Fresh) (h : Run m past c) {name : String}
    (hname : name ∈ c.stack.active) (v : Value) : ¬ Completed past name v := by
  intro hcompleted
  have hrunning := ((h.reachable.coherent hm).running_iff name).mpr hname
  rw [(h.settled_iff hm name v).mpr hcompleted] at hrunning
  cases hrunning

/-- No completion follows another one of the same name. -/
theorem countP_cons_le_one (hm : m.Fresh) (h : Run m past c) {name : String}
    (hpast : past.countP (fun b => b.config.completes name) ≤ 1) :
    ((⟨c⟩ : Moment σ) :: past).countP (fun b => b.config.completes name) ≤ 1 := by
  rw [List.countP_cons]
  by_cases hnow : c.completes name = true
  · obtain ⟨v, hv⟩ := Config.completes_iff.mp hnow
    have hnone : past.countP (fun b => b.config.completes name) = 0 := by
      rw [List.countP_eq_zero]
      intro b hb hcompletes
      obtain ⟨w, hw⟩ := Config.completes_iff.mp hcompletes
      exact h.not_completed_of_active hm (Config.mem_active_of_completed? hv) w ⟨b, hb, hw⟩
    simp [hnone, hnow]
  · simpa [hnow] using hpast

theorem completions_le_one (hm : m.Fresh) (h : Run m past c) (name : String) :
    past.countP (fun b => b.config.completes name) ≤ 1 := by
  induction h with
  | first p host => simp
  | next hrun _ ih => exact hrun.countP_cons_le_one hm ih
  | again hrun _ _ ih => exact hrun.countP_cons_le_one hm ih

/-- Before a declared name has completed, its entry waits with the body that was declared, unless
    that body is running. -/
theorem waiting_of_not_completed (hm : m.Fresh) (h : Run m past c) {name : String} {body : Body σ}
    (hdeclared : m.entryAt name = some (.waiting body))
    (hcompleted : ∀ v, ¬ Completed past name v) (hname : name ∉ c.stack.active) :
    c.session.module.entryAt name = some (.waiting body) := by
  have hcoherent := h.reachable.coherent hm
  cases hentry : c.session.module.entryAt name with
  | none =>
    rw [hcoherent.undefined_iff name, hdeclared] at hentry
    cases hentry
  | some entry =>
    cases entry with
    | waiting other =>
      rw [hcoherent.waiting_body name other hentry] at hdeclared
      exact hdeclared
    | running => exact absurd ((hcoherent.running_iff name).mp hentry) hname
    | settled v => exact absurd ((h.settled_iff hm name v).mp hentry) (hcompleted v)

end Run

theorem Session.answer?_of_settled {s : Session σ} {name : String} {v : Value}
    (h : s.module.entryAt name = some (.settled v)) : s.answer? name = some (.ok v) := by
  unfold answer?
  rw [h]

theorem Session.valueOf_of_settled {s : Session σ} {name : String} {v : Value}
    (h : s.module.entryAt name = some (.settled v)) : s.valueOf name = (.ok v, s) :=
  valueOf_of_answer (answer?_of_settled h)

/-- At every point of every use of a module, for every name `n`: its body is on the stack at most
    once and has completed at most once. If it has completed with a value, `n` counts as evaluated,
    its body is not running, and a lookup gives that value at once. If it has not and `n` is
    declared, `n` does not count as evaluated, and a lookup starts the body unless it is running
    already. -/
theorem completes_once (moduleName : String) (definitions : List (Definition σ))
    {past : List (Moment σ)} {c : Config σ α}
    (h : Run (.ofDefinitions moduleName definitions) past c) (n : String) :
    c.stack.active.count n ≤ 1 ∧
    past.countP (fun b => b.config.completes n) ≤ 1 ∧
    (∀ v, Completed past n v →
      c.session.module.isSettled n = true ∧ n ∉ c.stack.active ∧
      ∀ (β : Type) (resume : Outcome Value → Program σ β) (stack : Stack σ α β) (s : Session σ),
        c = ⟨.lookup n resume, stack, s⟩ → c.step = .inr ⟨resume (.ok v), stack, s⟩) ∧
    ((∀ v, ¬ Completed past n v) →
      ∀ body, (Module.ofDefinitions moduleName definitions).entryAt n = some (.waiting body) →
      c.session.module.isSettled n = false ∧
      ∀ (β : Type) (resume : Outcome Value → Program σ β) (stack : Stack σ α β) (s : Session σ),
        c = ⟨.lookup n resume, stack, s⟩ → n ∉ stack.active →
        c.step = .inr ⟨body, .activation n body resume stack, s.setEntry n .running⟩) := by
  have hm := Module.fresh_ofDefinitions moduleName definitions
  have hcoherent := h.reachable.coherent hm
  have hcount : c.stack.active.count n ≤ 1 :=
    List.nodup_iff_count_le_one.mp hcoherent.active_nodup n
  refine ⟨hcount, h.completions_le_one hm n, ?_, ?_⟩
  · intro v hcompleted
    have hsettled := (h.settled_iff hm n v).mpr hcompleted
    refine ⟨Module.isSettled_eq_true_iff.mpr ⟨v, hsettled⟩,
      fun hactive => h.not_completed_of_active hm hactive v hcompleted, ?_⟩
    intro β resume stack s hc
    subst hc
    exact Config.step_lookup_of_answer (answer?_of_settled hsettled) resume stack
  · intro hnot body hdeclared
    constructor
    · rw [← Bool.not_eq_true, Module.isSettled_eq_true_iff]
      rintro ⟨v, hsettled⟩
      exact hnot v ((h.settled_iff hm n v).mp hsettled)
    · intro β resume stack s hc hactive
      subst hc
      have hwaiting := h.waiting_of_not_completed hm hdeclared hnot hactive
      exact Config.step_lookup_of_waiting hwaiting resume stack

/-- Counts its runs in the host state and fails in the first one. -/
def secondTry : Body Nat :=
  .read fun runs => .write (runs + 1) <|
    .finish (if runs = 0 then .error (.of (.crash "early")) else .ok .nil)

/-- After one failed and one successful run the body has completed once, and the third lookup of
    the same program finds the value. -/
theorem completes_once_secondTry :
    ∃ (past : List (Moment Nat)) (c : Config Nat (Outcome Value)),
      Run (.ofDefinitions "main" [⟨"a", secondTry⟩]) past c ∧ c.session.host = 2 ∧
      Completed past "a" .nil ∧ past.countP (fun b => b.config.completes "a") ≤ 1 ∧
      c.session.module.isSettled "a" = true ∧
      c.step = .inr ⟨.finish (.ok .nil), .caller, c.session⟩ := by
  have hfirst : (Module.ofDefinitions "main" [⟨"a", secondTry⟩]).entryAt "a" =
      some (.waiting secondTry) := by
    simp [Module.entryAt_ofDefinitions]
  have hsecond (m : Module Nat) (failure : Failure) :
      (m.setEntry "a" (entryAfter secondTry (.error failure))).entryAt "a" =
        some (.waiting secondTry) :=
    m.entryAt_setEntry_self "a" _
  let third : Program Nat (Outcome Value) := .lookup "a" .finish
  -- Each run of the body starts, reads the counter, writes it, and ends.
  have hfailed := ((((Run.first (.lookup "a" fun _ => .lookup "a" fun _ => third) 0).next
    (Config.step_lookup_of_waiting hfirst _ _)).next rfl).next rfl).next rfl
  have hdone := (((hfailed.next (Config.step_lookup_of_waiting (hsecond _ _) _ _)).next rfl).next
    rfl).next rfl
  have hcompleted := (hdone.settled_iff (Module.fresh_ofDefinitions _ _) "a" .nil).mp
    (Module.entryAt_setEntry_self _ _ _)
  obtain ⟨-, hcount, hafter, -⟩ := completes_once "main" _ hdone "a"
  obtain ⟨hsettled, -, hanswer⟩ := hafter .nil hcompleted
  exact ⟨_, _, hdone, rfl, hcompleted, hcount, hsettled, hanswer _ _ _ _ rfl⟩

end TaggedEval
