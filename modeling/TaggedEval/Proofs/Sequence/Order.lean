import TaggedEval.Proofs.Sequence.Calls

/-!
# Order, effects and results of the list operations

The left fold calls its callback on the heads of any chain of cells, and finds out last that the
chain is no list. The operations that reverse first know it before they call anything, and go from
the last head to the first.
-/

namespace TaggedEval

namespace Sequence

variable {σ ι α β : Type}

/-- `op`, with the callback `f` and from the state `s`, calls `f` on the arguments in `log`, in
    that order and no others, and ends with `outcome` in the state `s'`. -/
structure MakesCalls (op : (σ : Type) → (ι → Effect σ β) → Effect σ α) (f : ι → Effect σ β)
    (s : σ) (log : List ι) (outcome : Outcome α) (s' : σ) : Prop where
  plain : perform (op σ f) s = (outcome, s')
  noted : perform (op (σ × List ι) (recorded f)) (s, []) = (outcome, s', log)

/-- With every callback, `op` fails and calls nothing. -/
def Refuses (op : (σ : Type) → (ι → Effect σ β) → Effect σ α) (failure : Failure) : Prop :=
  ∀ (σ : Type) (f : ι → Effect σ β) (s : σ), MakesCalls op f s [] (.error failure) s

/-- With every callback, `op` visits `xs`, stops at the first failure, which is its own then, and
    returns `result` of the arguments with their answers otherwise. -/
def Asks (op : (σ : Type) → (ι → Effect σ β) → Effect σ α) (xs : List ι)
    (result : List (ι × β) → α) : Prop :=
  ∀ (σ : Type) (f : ι → Effect σ β) (s : σ), ∃ log answers s',
    Visits f xs s log answers s' ∧ MakesCalls op f s log (result <$> answers) s'

/-- With every callback, `op` folds over `xs` and ends as the fold does. -/
def Threads (op : (σ : Type) → (ι × α → Effect σ α) → Effect σ α) (xs : List ι) (init : α) :
    Prop :=
  ∀ (σ : Type) (f : ι × α → Effect σ α) (s : σ), ∃ log result s',
    Folds f xs init s log result s' ∧ MakesCalls op f s log result s'

theorem asks_of_eq {op : (σ : Type) → (ι → Effect σ β) → Effect σ α} {xs : List ι}
    {result : List (ι × β) → α} (hop : ∀ σ f, op σ f = result <$> xs.mapM (answered f)) :
    Asks op xs result := by
  intro σ f s
  obtain ⟨log, answers, s', hvisits⟩ := exists_visits f xs s
  have hplain : perform (op σ f) s = (result <$> answers, s') := by
    rw [hop, perform_map, hvisits.perform_mapM]
  have hnoted : perform (op (σ × List ι) (recorded f)) (s, []) = (result <$> answers, s', log) := by
    rw [hop, perform_map, hvisits.recorded.perform_mapM]
  exact ⟨log, answers, s', hvisits, hplain, hnoted⟩

theorem Folds.makesCalls {op : (σ : Type) → (ι × α → Effect σ α) → Effect σ α}
    {f : ι × α → Effect σ α} {xs : List ι} {init : α} {s s' : σ} {log : List (ι × α)}
    {result : Outcome α} (h : Folds f xs init s log result s')
    (hop : ∀ σ f, op σ f = xs.foldlM (fun acc x => f (x, acc)) init) :
    MakesCalls op f s log result s' where
  plain := by rw [hop, h.perform_foldlM]
  noted := by rw [hop, h.recorded.perform_foldlM]

theorem threads_of_eq {op : (σ : Type) → (ι × α → Effect σ α) → Effect σ α} {xs : List ι}
    {init : α} (hop : ∀ σ f, op σ f = xs.foldlM (fun acc x => f (x, acc)) init) :
    Threads op xs init := by
  intro σ f s
  obtain ⟨log, result, s', hfolds⟩ := exists_folds f xs init s
  exact ⟨log, result, s', hfolds, hfolds.makesCalls hop⟩

/-! ## The left fold -/

theorem perform_foldl_of_not_list (f : Value → α → Effect σ α) {heads : List Value}
    {stop : Value} (hcell : isCell stop = false) (hnil : stop ≠ .nil) {init : α} {s s' : σ}
    {result : Outcome α}
    (h : perform (heads.foldlM (fun acc x => f x acc) init) s = (result, s')) :
    perform (foldl f init (chain heads stop)) s =
      (result >>= fun _ => .error (stop.mismatch "List"), s') := by
  rw [foldl_chain, perform_bind, h]
  cases result with
  | error failure => rfl
  | ok last =>
    show perform (foldl f last stop) s' = (.error (stop.mismatch "List"), s')
    rw [foldl_of_not_list f last hcell hnil, perform_throw]

theorem Folds.makesCalls_of_not_list {f : Value × α → Effect σ α} {heads : List Value}
    {stop : Value} (hcell : isCell stop = false) (hnil : stop ≠ .nil) {init : α} {s s' : σ}
    {log : List (Value × α)} {result : Outcome α} (h : Folds f heads init s log result s') :
    MakesCalls (fun _ f => foldl (Function.curry f) init (chain heads stop)) f s log
      (result >>= fun _ => .error (stop.mismatch "List")) s' where
  plain := perform_foldl_of_not_list (Function.curry f) hcell hnil h.perform_foldlM
  noted :=
    perform_foldl_of_not_list (Function.curry (Sequence.recorded f)) hcell hnil
      h.recorded.perform_foldlM

/-- The left fold is strict on every value: it goes along the heads, each call beside the answer of
    the call before, ends with the first failure, and looks at the end after the last head. -/
theorem foldl_calls (xs : Value) :
    ∃ heads stop, (isCell stop = false ∧ chain heads stop = xs) ∧
      (∀ heads' stop', isCell stop' = false → chain heads' stop' = xs →
        heads' = heads ∧ stop' = stop) ∧
      ∀ (σ α : Type) (f : Value × α → Effect σ α) (init : α) (s : σ),
        ∃ log result outcome s',
          Folds f heads init s log result s' ∧
          MakesCalls (fun _ f => foldl (Function.curry f) init xs) f s log outcome s' ∧
          (∀ failure, result = .error failure → outcome = .error failure) ∧
          (∀ last, result = .ok last → stop = .nil → outcome = .ok last) ∧
          (∀ last, result = .ok last → stop ≠ .nil →
            outcome = .error (.of (.wrongKind "List" stop.kind))) := by
  obtain ⟨heads, stop, hcell, rfl⟩ := exists_chain xs
  refine ⟨heads, stop, ⟨hcell, rfl⟩, fun _ _ hcell' h => eq_of_chain_eq hcell' hcell h, ?_⟩
  intro σ α f init s
  obtain ⟨log, result, s', hfolds⟩ := exists_folds f heads init s
  by_cases hnil : stop = .nil
  · subst hnil
    have hmakes := hfolds.makesCalls fun _ f => foldl_ofList (Function.curry f) init heads
    exact ⟨log, result, result, s', hfolds, hmakes, fun _ h => h, fun _ h _ => h,
      fun _ _ h => absurd rfl h⟩
  · -- Whatever the calls end with, a bad end turns it into a failure, unless they failed before.
    have hmakes := hfolds.makesCalls_of_not_list hcell hnil
    refine ⟨log, result, _, s', hfolds, hmakes, ?_, fun _ _ h => absurd h hnil, ?_⟩
    · intro failure h
      rw [h]
      rfl
    · intro last h _
      rw [h]
      rfl

/-! ## The operations that reverse first -/

theorem perform_foldr_of_not_list (f : Value → α → Effect σ α) (init : α) (heads : List Value)
    {stop : Value} (hcell : isCell stop = false) (hnil : stop ≠ .nil) (s : σ) :
    perform (foldr f init (chain heads stop)) s = (.error (stop.mismatch "List"), s) := by
  rw [foldr_of_not_list f init heads hcell hnil, perform_bind_of_error (perform_throw _ s)]

theorem refuses_of_eq_foldr {op : (σ : Type) → (ι → Effect σ β) → Effect σ α} {heads : List Value}
    {stop : Value} (hcell : isCell stop = false) (hnil : stop ≠ .nil)
    (hop : ∀ σ f, ∃ step init, op σ f = foldr step init (chain heads stop)) :
    Refuses op (stop.mismatch "List") := by
  have hperform {σ : Type} (f : ι → Effect σ β) (s : σ) :
      perform (op σ f) s = (.error (stop.mismatch "List"), s) := by
    obtain ⟨step, init, hop⟩ := hop σ f
    rw [hop, perform_foldr_of_not_list step init heads hcell hnil]
  exact fun _ f s => ⟨hperform f s, hperform (recorded f) (s, [])⟩

/-- The right fold, `map`, `filter` and `reject` call nothing on a value that is no list. On a list
    they go from the last head to the first, end with the first failure, and give their results in
    the order of the list. -/
theorem foldr_map_filter_reject_calls (xs : Value) :
    ∃ heads stop, (isCell stop = false ∧ chain heads stop = xs) ∧
      (stop ≠ .nil →
        (∀ (α : Type) (init : α),
          Refuses (fun _ (f : Value × α → Effect _ α) => foldr (Function.curry f) init xs)
            (.of (.wrongKind "List" stop.kind))) ∧
        Refuses (fun _ f => map f xs) (.of (.wrongKind "List" stop.kind)) ∧
        Refuses (fun _ p => filter p xs) (.of (.wrongKind "List" stop.kind)) ∧
        Refuses (fun _ p => reject p xs) (.of (.wrongKind "List" stop.kind))) ∧
      (stop = .nil →
        (∀ (α : Type) (init : α),
          Threads (fun _ f => foldr (Function.curry f) init xs) heads.reverse init) ∧
        Asks (fun _ f => map f xs) heads.reverse
          (fun calls => ofList (calls.reverse.map Prod.snd)) ∧
        Asks (fun _ p => filter p xs) heads.reverse
          (fun calls => ofList ((calls.reverse.filter fun call => call.2).map Prod.fst)) ∧
        Asks (fun _ p => reject p xs) heads.reverse
          (fun calls => ofList ((calls.reverse.filter fun call => !call.2).map Prod.fst))) := by
  obtain ⟨heads, stop, hcell, rfl⟩ := exists_chain xs
  refine ⟨heads, stop, ⟨hcell, rfl⟩, fun hnil => ⟨fun α init => ?_, ?_, ?_, ?_⟩, ?_⟩
  · exact refuses_of_eq_foldr hcell hnil fun _ _ => ⟨_, _, rfl⟩
  · exact refuses_of_eq_foldr hcell hnil fun _ _ => ⟨_, _, rfl⟩
  · exact refuses_of_eq_foldr hcell hnil fun _ _ => ⟨_, _, rfl⟩
  · exact refuses_of_eq_foldr hcell hnil fun _ _ => ⟨_, _, rfl⟩
  · rintro rfl
    refine ⟨fun α init => ?_, ?_, ?_, ?_⟩
    · exact threads_of_eq fun _ f => foldr_ofList (Function.curry f) init heads
    · exact asks_of_eq fun _ f => map_ofList f heads
    · exact asks_of_eq fun _ p => filter_ofList p heads
    · exact asks_of_eq fun _ p => reject_ofList p heads

-- The last element fails first, so the failure of the first element is never seen.
example :
    perform (map (recorded fun x => (throw (x.mismatch "Num") : Effect Unit Value))
        (ofList [.text "a", .nil])) ((), []) =
      (.error (.of (.wrongKind "Num" Value.nil.kind)), (), [.nil]) :=
  rfl

end Sequence

end TaggedEval
