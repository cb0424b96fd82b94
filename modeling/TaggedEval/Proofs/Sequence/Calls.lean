import TaggedEval.Proofs.Sequence.Spine

/-!
# Calls of a callback

A callback of a list operation may read and write a state and may fail; a failure keeps the state
that it was reached with. `recorded` adds to a callback the list of the arguments it was called
with, so that the calls an operation makes are part of its result.
-/

namespace TaggedEval

namespace Sequence

/-- A computation over a state that may fail. -/
abbrev Effect (σ α : Type) : Type :=
  ExceptT Failure (StateM σ) α

variable {σ ι α β : Type}

/-- The outcome of a computation, and the state it leaves. -/
def perform (op : Effect σ α) (s : σ) : Outcome α × σ :=
  op.run s

@[simp] theorem perform_pure (a : α) (s : σ) : perform (pure a) s = (.ok a, s) := rfl

@[simp] theorem perform_throw (failure : Failure) (s : σ) :
    perform (throw failure : Effect σ α) s = (.error failure, s) := rfl

theorem perform_bind (op : Effect σ α) (next : α → Effect σ β) (s : σ) :
    perform (op >>= next) s =
      match perform op s with
      | (.ok a, s') => perform (next a) s'
      | (.error failure, s') => (.error failure, s') := by
  show (match perform op s with | (outcome, s') => ExceptT.bindCont next outcome s') = _
  rcases perform op s with ⟨_ | _, s'⟩ <;> rfl

theorem perform_bind_of_ok {op : Effect σ α} {s s' : σ} {a : α} (h : perform op s = (.ok a, s'))
    (next : α → Effect σ β) : perform (op >>= next) s = perform (next a) s' := by
  rw [perform_bind, h]

theorem perform_bind_of_error {op : Effect σ α} {s s' : σ} {failure : Failure}
    (h : perform op s = (.error failure, s')) (next : α → Effect σ β) :
    perform (op >>= next) s = (.error failure, s') := by
  rw [perform_bind, h]

theorem perform_map (g : α → β) (op : Effect σ α) (s : σ) :
    perform (g <$> op) s = (g <$> (perform op s).1, (perform op s).2) := by
  rw [map_eq_pure_bind, perform_bind]
  rcases perform op s with ⟨_ | _, s'⟩ <;> rfl

/-! ## Records of calls -/

/-- `f`, with its argument put at the end of a list that is kept beside the state. -/
def recorded (f : ι → Effect σ β) (x : ι) : Effect (σ × List ι) β :=
  ExceptT.mk fun (s, log) =>
    let (outcome, s') := perform (f x) s
    (outcome, s', log ++ [x])

theorem perform_recorded {f : ι → Effect σ β} {x : ι} {s s' : σ} {outcome : Outcome β}
    (h : perform (f x) s = (outcome, s')) (log : List ι) :
    perform (recorded f x) (s, log) = (outcome, s', log ++ [x]) := by
  show (let (outcome, s') := perform (f x) s; (outcome, s', log ++ [x])) = _
  rw [h]

/-- Calls of `f` that are made one after the other and all succeed. Each is given as its argument
    with its answer; the state goes from `s` to the last index. -/
inductive Calls (f : ι → Effect σ β) : σ → List (ι × β) → σ → Prop
  | nil (s : σ) : Calls f s [] s
  | cons {s s₁ s₂ : σ} {x : ι} {y : β} {calls : List (ι × β)}
      (call : perform (f x) s = (.ok y, s₁)) (rest : Calls f s₁ calls s₂) :
      Calls f s ((x, y) :: calls) s₂

theorem Calls.recorded {f : ι → Effect σ β} {s s' : σ} {calls : List (ι × β)}
    (h : Calls f s calls s') (log : List ι) :
    Calls (recorded f) (s, log) calls (s', log ++ calls.map Prod.fst) := by
  induction h generalizing log with
  | nil s => simpa using @Calls.nil _ _ _ (Sequence.recorded f) (s, log)
  | @cons _ _ _ x _ _ call _ ih =>
    have hrest := ih (log ++ [x])
    rw [List.append_assoc] at hrest
    exact .cons (perform_recorded call log) hrest

/-! ## Calls on each element -/

/-- `f` is called on the members of `xs` in order, up to and including the first call that fails.
    The indices are the arguments of the calls that are made, their answers unless one fails, and
    the state after them. -/
inductive Visits (f : ι → Effect σ β) (xs : List ι) (s : σ) :
    List ι → Outcome (List (ι × β)) → σ → Prop
  | all {calls : List (ι × β)} {s' : σ} (succeed : Calls f s calls s')
      (order : calls.map Prod.fst = xs) : Visits f xs s (calls.map Prod.fst) (.ok calls) s'
  | failed {calls : List (ι × β)} {x : ι} {unvisited : List ι} {failure : Failure} {s₁ s' : σ}
      (succeed : Calls f s calls s₁) (order : calls.map Prod.fst ++ x :: unvisited = xs)
      (fails : perform (f x) s₁ = (.error failure, s')) :
      Visits f xs s (calls.map Prod.fst ++ [x]) (.error failure) s'

theorem exists_visits (f : ι → Effect σ β) (xs : List ι) (s : σ) :
    ∃ log answers s', Visits f xs s log answers s' := by
  induction xs generalizing s with
  | nil => exact ⟨_, _, _, .all (.nil s) rfl⟩
  | cons x xs ih =>
    rcases h : perform (f x) s with ⟨failure | y, s₁⟩
    · exact ⟨_, _, _, .failed (.nil s) rfl h⟩
    · obtain ⟨_, _, _, hvisits⟩ := ih s₁
      cases hvisits with
      | all succeed order => exact ⟨_, _, _, .all (.cons h succeed) (congrArg (x :: ·) order)⟩
      | failed succeed order fails =>
        exact ⟨_, _, _, .failed (.cons h succeed) (congrArg (x :: ·) order) fails⟩

theorem Visits.recorded {f : ι → Effect σ β} {xs log : List ι} {s s' : σ}
    {answers : Outcome (List (ι × β))} (h : Visits f xs s log answers s') :
    Visits (recorded f) xs (s, []) log answers (s', log) := by
  cases h with
  | all succeed order => exact .all (succeed.recorded []) order
  | failed succeed order fails =>
    exact .failed (succeed.recorded []) order (perform_recorded fails _)

theorem perform_answered {f : ι → Effect σ β} {x : ι} {s s' : σ} {outcome : Outcome β}
    (h : perform (f x) s = (outcome, s')) :
    perform (answered f x) s = (Prod.mk x <$> outcome, s') := by
  rw [answered, perform_map, h]

-- The calls that succeed can be made first, and the rest of the elements visited after them.
theorem Calls.perform_mapM {f : ι → Effect σ β} {s s' : σ} {calls : List (ι × β)}
    (h : Calls f s calls s') (rest : List ι) :
    perform ((calls.map Prod.fst ++ rest).mapM (answered f)) s =
      perform ((calls ++ ·) <$> rest.mapM (answered f)) s' := by
  induction h with
  | nil s => rw [perform_map]; simp
  | @cons _ _ _ x y calls call _ ih =>
    have hcall : perform (answered f x) _ = (.ok (x, y), _) := perform_answered call
    rw [List.map_cons, List.cons_append, List.mapM_cons, perform_bind_of_ok hcall, bind_pure_comp,
      perform_map, ih, perform_map, perform_map, Functor.map_map]
    rfl

theorem Visits.perform_mapM {f : ι → Effect σ β} {xs log : List ι} {s s' : σ}
    {answers : Outcome (List (ι × β))} (h : Visits f xs s log answers s') :
    perform (xs.mapM (answered f)) s = (answers, s') := by
  cases h with
  | all succeed order =>
    have hrest := succeed.perform_mapM []
    rw [List.append_nil, order] at hrest
    rw [hrest, List.mapM_nil, map_pure, perform_pure, List.append_nil]
  | @failed _ x unvisited failure s₁ _ succeed order fails =>
    have hcall : perform (answered f x) s₁ = (.error failure, s') := perform_answered fails
    rw [← order, succeed.perform_mapM, perform_map, List.mapM_cons, perform_bind_of_error hcall]
    rfl

/-! ## Calls of a fold -/

/-- `f` is called on each member of `xs` in order, beside an accumulator, up to and including the
    first call that fails. The first accumulator is `init`, every other one is the answer of the
    call before. The indices are the arguments of the calls that are made, the last accumulator
    unless a call fails, and the state after the calls. -/
inductive Folds (f : ι × α → Effect σ α) (xs : List ι) (init : α) (s : σ) :
    List (ι × α) → Outcome α → σ → Prop
  | all {calls : List ((ι × α) × α)} {last : α} {s' : σ} (succeed : Calls f s calls s')
      (order : calls.map (·.1.1) = xs)
      (accumulators : calls.map (·.1.2) ++ [last] = init :: calls.map (·.2)) :
      Folds f xs init s (calls.map Prod.fst) (.ok last) s'
  | failed {calls : List ((ι × α) × α)} {last : α} {x : ι} {unvisited : List ι}
      {failure : Failure} {s₁ s' : σ} (succeed : Calls f s calls s₁)
      (order : calls.map (·.1.1) ++ x :: unvisited = xs)
      (accumulators : calls.map (·.1.2) ++ [last] = init :: calls.map (·.2))
      (fails : perform (f (x, last)) s₁ = (.error failure, s')) :
      Folds f xs init s (calls.map Prod.fst ++ [(x, last)]) (.error failure) s'

theorem exists_folds (f : ι × α → Effect σ α) (xs : List ι) (init : α) (s : σ) :
    ∃ log result s', Folds f xs init s log result s' := by
  induction xs generalizing init s with
  | nil => exact ⟨_, _, _, .all (.nil s) rfl rfl⟩
  | cons x xs ih =>
    rcases h : perform (f (x, init)) s with ⟨failure | acc, s₁⟩
    · exact ⟨_, _, _, .failed (.nil s) rfl rfl h⟩
    · obtain ⟨_, _, _, hfolds⟩ := ih acc s₁
      cases hfolds with
      | all succeed order accumulators =>
        exact ⟨_, _, _, .all (.cons h succeed) (congrArg (x :: ·) order)
          (congrArg (init :: ·) accumulators)⟩
      | failed succeed order accumulators fails =>
        exact ⟨_, _, _, .failed (.cons h succeed) (congrArg (x :: ·) order)
          (congrArg (init :: ·) accumulators) fails⟩

theorem Folds.recorded {f : ι × α → Effect σ α} {xs : List ι} {init : α} {s s' : σ}
    {log : List (ι × α)} {result : Outcome α} (h : Folds f xs init s log result s') :
    Folds (recorded f) xs init (s, []) log result (s', log) := by
  cases h with
  | all succeed order accumulators => exact .all (succeed.recorded []) order accumulators
  | failed succeed order accumulators fails =>
    exact .failed (succeed.recorded []) order accumulators (perform_recorded fails _)

theorem Calls.perform_foldlM {f : ι × α → Effect σ α} {s s' : σ} {calls : List ((ι × α) × α)}
    (h : Calls f s calls s') {init last : α}
    (accumulators : calls.map (·.1.2) ++ [last] = init :: calls.map (·.2)) (rest : List ι) :
    perform ((calls.map (·.1.1) ++ rest).foldlM (fun acc x => f (x, acc)) init) s =
      perform (rest.foldlM (fun acc x => f (x, acc)) last) s' := by
  induction h generalizing init with
  | nil s =>
    obtain rfl : last = init := by simpa using accumulators
    rfl
  | cons call _ ih =>
    simp only [List.map_cons, List.cons_append, List.cons.injEq] at accumulators
    obtain ⟨rfl, haccumulators⟩ := accumulators
    rw [List.map_cons, List.cons_append, List.foldlM_cons, perform_bind_of_ok call]
    exact ih haccumulators

theorem Folds.perform_foldlM {f : ι × α → Effect σ α} {xs : List ι} {init : α} {s s' : σ}
    {log : List (ι × α)} {result : Outcome α} (h : Folds f xs init s log result s') :
    perform (xs.foldlM (fun acc x => f (x, acc)) init) s = (result, s') := by
  cases h with
  | all succeed order accumulators =>
    have hrest := succeed.perform_foldlM accumulators []
    rw [List.append_nil, order] at hrest
    rw [hrest, List.foldlM_nil, perform_pure]
  | failed succeed order accumulators fails =>
    rw [← order, succeed.perform_foldlM accumulators, List.foldlM_cons,
      perform_bind_of_error fails]

end Sequence

end TaggedEval
