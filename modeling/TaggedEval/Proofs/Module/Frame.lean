import TaggedEval.Proofs.Module.Definitions
import TaggedEval.Proofs.Module.Run

/-!
# What a lookup leaves behind

A lookup changes few entries. Its own entry goes from waiting to settled when the lookup succeeds and
is what it was when the lookup fails; any other entry stays as it is or goes from waiting to settled
by a successful lookup on the way (`Evaluates.keptOrSettled`). Nothing stays behind as running. This
holds of programs that handle the failures of their lookups in any way.
-/

namespace TaggedEval

variable {σ α β : Type}

open Session

namespace Config

/-- On the way from one configuration to another, a lookup of the name gives the value. -/
def Obtains (start stop : Config σ α) (name : String) (v : Value) : Prop :=
  ∃ c c', Steps start c ∧ c.answered? = some (name, .ok v) ∧ c.step = .inr c' ∧ Steps c' stop

theorem Obtains.extend {c₁ c₂ c₃ c₄ : Config σ α} {name : String} {v : Value}
    (h : Obtains c₂ c₃ name v) (hbefore : Steps c₁ c₂) (hafter : Steps c₃ c₄) :
    Obtains c₁ c₄ name v := by
  obtain ⟨c, c', hc, hanswered, hstep, hc'⟩ := h
  exact ⟨c, c', hbefore.trans hc, hanswered, hstep, hc'.trans hafter⟩

/-- From one configuration to another, the entry of the name stays as it is, or goes from waiting to
    settled because a lookup of the name succeeds on the way. -/
def KeptOrSettled (name : String) (start stop : Config σ α) : Prop :=
  stop.session.module.entryAt name = start.session.module.entryAt name ∨
    ∃ body v, start.session.module.entryAt name = some (.waiting body) ∧
      stop.session.module.entryAt name = some (.settled v) ∧ Obtains start stop name v

theorem KeptOrSettled.extend {c₁ c₂ c₃ : Config σ α} {name : String}
    (h : KeptOrSettled name c₂ c₃) (hbefore : Steps c₁ c₂)
    (hentry : c₂.session.module.entryAt name = c₁.session.module.entryAt name) :
    KeptOrSettled name c₁ c₃ := by
  rcases h with hkept | ⟨body, v, hwaiting, hstop, hobtains⟩
  · exact .inl (hkept.trans hentry)
  · rw [hentry] at hwaiting
    exact .inr ⟨body, v, hwaiting, hstop, hobtains.extend hbefore (.refl _)⟩

theorem KeptOrSettled.eq_of_not_waiting {start stop : Config σ α} {name : String}
    (h : KeptOrSettled name start stop)
    (hentry : ∀ body, start.session.module.entryAt name ≠ some (.waiting body)) :
    stop.session.module.entryAt name = start.session.module.entryAt name := by
  rcases h with hkept | ⟨body, v, hwaiting, -⟩
  · exact hkept
  · exact absurd hwaiting (hentry body)

theorem KeptOrSettled.trans {c₁ c₂ c₃ : Config σ α} {name : String}
    (h₁ : KeptOrSettled name c₁ c₂) (h₂ : KeptOrSettled name c₂ c₃) (hsteps : Steps c₁ c₂)
    (hsteps' : Steps c₂ c₃) : KeptOrSettled name c₁ c₃ := by
  rcases h₁ with hkept | ⟨body, v, hwaiting, hmiddle, hobtains⟩
  · exact h₂.extend hsteps hkept
  · -- Settled on the first part, the entry stays so on the second.
    have hkept := h₂.eq_of_not_waiting fun body' h => by rw [hmiddle] at h; cases h
    exact .inr ⟨body, v, hwaiting, hkept.trans hmiddle, hobtains.extend (.refl _) hsteps'⟩

theorem KeptOrSettled.running {start stop : Config σ α} {name : String}
    (h : KeptOrSettled name start stop)
    (hrunning : stop.session.module.entryAt name = some .running) :
    start.session.module.entryAt name = some .running := by
  rcases h with hkept | ⟨body, v, -, hstop, -⟩
  · rw [← hkept, hrunning]
  · rw [hrunning] at hstop
    cases hstop

end Config

open Config

/-! ## Evaluations -/

theorem keptOrSettled_own {s s₁ : Session σ} {own : String} {body : Body σ} {o : Outcome Value}
    (waiting : s.module.entryAt own = some (.waiting body))
    (inner : Evaluates (s.setEntry own .running) body o s₁)
    (resume : Outcome Value → Program σ β) (stack : Stack σ α β) :
    KeptOrSettled own ⟨.lookup own resume, stack, s⟩
      ⟨resume (noted own o), stack, s₁.setEntry own (entryAfter body o)⟩ := by
  have hafter := Module.entryAt_setEntry_self s₁.module own (entryAfter body o)
  -- A value is stored; a failure puts the same body back.
  cases o with
  | ok v =>
    refine .inr ⟨body, v, waiting, hafter, ?_⟩
    have hinner := inner.steps (.activation own body resume stack)
    exact ⟨_, _, .head (step_lookup_of_waiting waiting _ _) hinner, rfl, rfl, .refl _⟩
  | error failure =>
    refine .inl ?_
    rw [waiting]
    exact hafter

theorem keptOrSettled_of_waiting {s s₁ : Session σ} {own : String} {body : Body σ}
    {o : Outcome Value} (waiting : s.module.entryAt own = some (.waiting body))
    (inner : Evaluates (s.setEntry own .running) body o s₁)
    (resume : Outcome Value → Program σ β) (stack : Stack σ α β) (name : String)
    (hinner : KeptOrSettled name
      ⟨body, .activation own body resume stack, s.setEntry own .running⟩
      ⟨.finish o, .activation own body resume stack, s₁⟩) :
    KeptOrSettled name ⟨.lookup own resume, stack, s⟩
      ⟨resume (noted own o), stack, s₁.setEntry own (entryAfter body o)⟩ := by
  by_cases hname : own = name
  · rw [← hname]
    exact keptOrSettled_own waiting inner resume stack
  · -- Marking and unmarking `own` does not touch the entry of `name`.
    have hmark := s.module.entryAt_setEntry_of_ne hname .running
    have hunmark := s₁.module.entryAt_setEntry_of_ne hname (entryAfter body o)
    have hbefore : Steps ⟨.lookup own resume, stack, s⟩
        ⟨body, .activation own body resume stack, s.setEntry own .running⟩ :=
      .head (step_lookup_of_waiting waiting resume stack) (.refl _)
    have hbody := hbefore.trans (inner.steps (.activation own body resume stack))
    exact (hinner.extend hbefore hmark).trans (.inl hunmark) hbody (.head rfl (.refl _))

theorem Evaluates.keptOrSettled {s s' : Session σ} {p : Program σ β} {r : β}
    (h : Evaluates s p r s') {α : Type} (stack : Stack σ α β) (name : String) :
    KeptOrSettled name ⟨p, stack, s⟩ ⟨.finish r, stack, s'⟩ := by
  -- Only the rule for a waiting name touches an entry. There the body is evaluated on a longer
  -- stack, so the hypotheses range over all stacks.
  induction h generalizing α with
  | finish s r => exact .inl rfl
  | answered answer rest ih =>
    exact (ih stack).extend (.head (step_lookup_of_answer answer _ _) (.refl _)) rfl
  | @started _ _ _ _ own body o resume _ waiting inner rest ihInner ihRest =>
    have hbody := keptOrSettled_of_waiting waiting inner resume stack name (ihInner _)
    exact hbody.trans (ihRest stack) (steps_of_waiting waiting (inner.steps _)) (rest.steps stack)
  | isSettled rest ih => exact (ih stack).extend (.head rfl (.refl _)) rfl
  | signature rest ih => exact (ih stack).extend (.head rfl (.refl _)) rfl
  | read rest ih => exact (ih stack).extend (.head rfl (.refl _)) rfl
  | write rest ih => exact (ih stack).extend (.head rfl (.refl _)) rfl

/-! ## Lookups -/

theorem keptOrSettled_lookup (s : Session σ) (n : String) (resume : Outcome Value → Program σ β)
    (stack : Stack σ α β) (name : String) :
    KeptOrSettled name ⟨.lookup n resume, stack, s⟩
      ⟨resume (s.valueOf n).1, stack, (s.valueOf n).2⟩ := by
  rcases s.answer_or_waiting n with ⟨o, hanswer⟩ | ⟨body, hwaiting⟩
  · rw [valueOf_of_answer hanswer]
    exact .inl rfl
  · have hrun := evaluates_run (s.setEntry n .running) body
    rw [valueOf_of_waiting hwaiting]
    exact keptOrSettled_of_waiting hwaiting hrun resume stack name (hrun.keptOrSettled _ name)

theorem valueOf_ok_of_waiting {s : Session σ} {n : String} {body : Body σ} {v : Value}
    (hwaiting : s.module.entryAt n = some (.waiting body)) (hok : (s.valueOf n).1 = .ok v) :
    (s.valueOf n).2.module.entryAt n = some (.settled v) := by
  rw [valueOf_of_waiting hwaiting] at hok ⊢
  cases hresult : ((s.setEntry n .running).run body).1 with
  | ok w =>
    rw [hresult] at hok
    cases hok
    exact Module.entryAt_setEntry_self _ _ _
  | error inner =>
    rw [hresult] at hok
    cases hok

theorem valueOf_error_of_waiting {s : Session σ} {n : String} {body : Body σ} {failure : Failure}
    (hwaiting : s.module.entryAt n = some (.waiting body))
    (herror : (s.valueOf n).1 = .error failure) :
    (s.valueOf n).2.module.entryAt n = some (.waiting body) ∧
      ∃ inner, ((s.setEntry n .running).run body).1 = .error inner ∧
        failure = inner.addNote ("while evaluating " ++ n) := by
  rw [valueOf_of_waiting hwaiting] at herror ⊢
  cases hresult : ((s.setEntry n .running).run body).1 with
  | ok w =>
    rw [hresult] at herror
    cases herror
  | error inner =>
    rw [hresult] at herror
    cases herror
    exact ⟨Module.entryAt_setEntry_self _ _ _, inner, rfl, rfl⟩

theorem settled_of_valueOf_ok {s : Session σ} {name : String} {v : Value}
    (h : (s.valueOf name).1 = .ok v) :
    (s.valueOf name).2.module.entryAt name = some (.settled v) := by
  rcases s.answer_or_waiting name with ⟨o, hanswer⟩ | ⟨body, hwaiting⟩
  · rw [valueOf_of_answer hanswer] at h ⊢
    -- Of the lookups that are answered at once, only those of settled names succeed.
    unfold answer? at hanswer
    split at hanswer <;> cases hanswer <;> cases h
    assumption
  · exact valueOf_ok_of_waiting hwaiting h

/-- What is settled stays settled. -/
theorem settled_valueOf {s : Session σ} {name : String} {v : Value}
    (h : s.module.entryAt name = some (.settled v)) (other : String) :
    (s.valueOf other).2.module.entryAt name = some (.settled v) := by
  have hkept := keptOrSettled_lookup s other .finish .caller name
  rw [← h]
  exact hkept.eq_of_not_waiting fun body hwaiting => by rw [h] at hwaiting; cases hwaiting

theorem notes_of_answer {s : Session σ} {n : String} {failure : Failure}
    (h : s.answer? n = some (.error failure)) : failure.notes = [] := by
  unfold answer? at h
  split at h <;> cases h <;> rfl

/-- What a lookup of `n` does, on any session and below any programs that wait for it. Every other
    entry is kept or goes from waiting to settled by a successful lookup on the way; no settled or
    running entry changes, and none is left running; a waiting `n` is settled with the value or, if
    the lookup fails, waits with the same body, and the failure is the one of the body with one
    note at its end; and if `n` does not wait, nothing changes and no note is added. -/
theorem lookup_frame (s : Session σ) (n : String) (resume : Outcome Value → Program σ β)
    (stack : Stack σ α β) :
    ∃ o s', s.valueOf n = (o, s') ∧
      Steps ⟨.lookup n resume, stack, s⟩ ⟨resume o, stack, s'⟩ ∧
      (∀ m, m ≠ n → s'.module.entryAt m = s.module.entryAt m ∨
        ∃ body v, s.module.entryAt m = some (.waiting body) ∧
          s'.module.entryAt m = some (.settled v) ∧
          Obtains ⟨.lookup n resume, stack, s⟩ ⟨resume o, stack, s'⟩ m v) ∧
      (∀ m v, s.module.entryAt m = some (.settled v) → s'.module.entryAt m = some (.settled v)) ∧
      (∀ m, s.module.entryAt m = some .running ↔ s'.module.entryAt m = some .running) ∧
      (∀ body, s.module.entryAt n = some (.waiting body) →
        (∀ v, o = .ok v → s'.module.entryAt n = some (.settled v)) ∧
        (∀ failure, o = .error failure → s'.module.entryAt n = some (.waiting body) ∧
          ∃ inner, ((s.setEntry n .running).run body).1 = .error inner ∧
            failure.notes = inner.notes ++ ["while evaluating " ++ n] ∧
            failure.cause = inner.cause ∧ failure.message = inner.message)) ∧
      ((∀ body, s.module.entryAt n ≠ some (.waiting body)) →
        s' = s ∧ s.answer? n = some o ∧ ∀ failure, o = .error failure → failure.notes = []) := by
  have hkept := keptOrSettled_lookup s n resume stack
  refine ⟨(s.valueOf n).1, (s.valueOf n).2, rfl, steps_lookup s n resume stack,
    fun m _ => hkept m, ?_, ?_, ?_, ?_⟩
  · intro m v hsettled
    rw [← hsettled]
    exact (hkept m).eq_of_not_waiting fun body h => by rw [hsettled] at h; cases h
  · intro m
    refine ⟨fun hrunning => ?_, (hkept m).running⟩
    rw [← hrunning]
    exact (hkept m).eq_of_not_waiting fun body h => by rw [hrunning] at h; cases h
  · intro body hwaiting
    refine ⟨fun v hok => valueOf_ok_of_waiting hwaiting hok, fun failure herror => ?_⟩
    obtain ⟨hentry, inner, hinner, rfl⟩ := valueOf_error_of_waiting hwaiting herror
    exact ⟨hentry, inner, hinner, inner.addNote_notes _, inner.addNote_cause _,
      inner.addNote_message _⟩
  · intro hnot
    rcases s.answer_or_waiting n with ⟨o, hanswer⟩ | ⟨body, hwaiting⟩
    · rw [valueOf_of_answer hanswer]
      refine ⟨rfl, hanswer, fun failure herror => notes_of_answer (s := s) (n := n) ?_⟩
      rw [hanswer]
      exact congrArg some herror
    · exact absurd hwaiting (hnot body)

/-- `total` looks `part` up and fails afterwards. -/
def failingTotal : List (Definition Unit) :=
  [⟨"total", .lookup "part" fun _ => .finish (.error (.of (.crash "stop")))⟩,
    .ofValue "part" .nil]

/-- The failed lookup of `total` leaves `part` settled and `total` waiting. -/
theorem lookup_frame_failingTotal :
    ∃ o s', (⟨.ofDefinitions "main" failingTotal, ()⟩ : Session Unit).valueOf "total" = (o, s') ∧
      o = .error ⟨.crash "stop", "crash: stop", ["while evaluating total"]⟩ ∧
      s'.module.entryAt "part" = some (.settled .nil) ∧
      ∃ body, s'.module.entryAt "total" = some (.waiting body) := by
  let s : Session Unit := ⟨.ofDefinitions "main" failingTotal, ()⟩
  have htotal : s.module.entryAt "total" =
      some (.waiting (.lookup "part" fun _ => .finish (.error (.of (.crash "stop"))))) := by
    simp [s, Module.entryAt_ofDefinitions, failingTotal, Definition.ofValue]
  have hpart : (s.setEntry "total" .running).module.entryAt "part" =
      some (.waiting (.finish (.ok .nil))) := by
    simp [s, Module.entryAt_setEntry, Module.entryAt_ofDefinitions, failingTotal,
      Definition.ofValue]
  have hrun := (Evaluates.started htotal (.started hpart (.finish _ _) (.finish _ _))
    (.finish _ _)).run_eq
  obtain ⟨o, s', hvalue, -, -, -, -, hown, -⟩ := lookup_frame s "total" .finish .caller
  have hpair : (o, s') = _ := hvalue.symm.trans hrun
  cases hpair
  exact ⟨_, _, hvalue, rfl, by simp [entryAfter, Module.entryAt_setEntry],
    _, ((hown _ htotal).2 _ rfl).1⟩

end TaggedEval
