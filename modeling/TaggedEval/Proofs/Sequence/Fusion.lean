import Mathlib
import TaggedEval.Proofs.Sequence.Order
import TaggedEval.Proofs.Sequence.Traversals

/-!
# Two passes in one

Two operations in a row can be replaced by one that does the work of both, or by the same two in the
other order, although each of them reverses its list on the way. A left fold keeps its calls and its
first failure. Callbacks of `map` that may fail can meet a different failure first when the passes
are joined, since one pass calls both on the last element before it comes to the one in front; but
they succeed on the same lists, with the same result (`map_ofList_eq_ok_iff`).
-/

namespace TaggedEval

/-! ## Callbacks without effects -/

theorem Outcome.map_eq_ok_iff {α β : Type} {g : α → β} {o : Outcome α} {b : β} :
    g <$> o = .ok b ↔ ∃ a, o = .ok a ∧ g a = b := by
  cases o with
  | error failure => exact ⟨nofun, nofun⟩
  | ok a =>
    show Except.ok (g a) = .ok b ↔ _
    simp

theorem Outcome.bind_eq_ok_iff {α β : Type} {g : α → Outcome β} {o : Outcome α} {b : β} :
    o >>= g = .ok b ↔ ∃ a, o = .ok a ∧ g a = .ok b := by
  cases o with
  | error failure => exact ⟨nofun, nofun⟩
  | ok a =>
    show g a = .ok b ↔ _
    simp

namespace Sequence

section Failing

variable {ι α β : Type}

/-- Without effects a traversal succeeds if each call does, and the answers are those of the calls. -/
theorem mapM_eq_ok_iff {f : ι → Outcome β} {xs : List ι} {ys : List β} :
    xs.mapM f = .ok ys ↔ xs.map f = ys.map .ok := by
  induction xs generalizing ys with
  | nil =>
    rw [List.mapM_nil, List.map_nil]
    cases ys <;> simp [pure, Except.pure]
  | cons x xs ih =>
    rw [List.mapM_cons, List.map_cons, Outcome.bind_eq_ok_iff]
    simp only [bind_pure_comp, Outcome.map_eq_ok_iff, ih]
    cases ys with
    | nil => simp
    | cons y ys => simp

theorem exists_answers {os : List (Outcome β)} (h : ∀ o ∈ os, ∃ b, o = .ok b) :
    ∃ bs : List β, os = bs.map .ok := by
  have hrange : os ∈ Set.range (List.map (Except.ok : β → Outcome β)) := by
    rw [Set.range_list_map]
    intro o ho
    obtain ⟨b, rfl⟩ := h o ho
    exact ⟨b, rfl⟩
  obtain ⟨bs, rfl⟩ := hrange
  exact ⟨bs, rfl⟩

theorem mapM_answered_snd {m : Type → Type} [Monad m] [LawfulMonad m] (f : ι → m β)
    (xs : List ι) : List.map Prod.snd <$> xs.mapM (answered f) = xs.mapM f := by
  induction xs with
  | nil => simp
  | cons x xs ih =>
    rw [List.mapM_cons, List.mapM_cons, ← ih]
    simp [answered]

/-- A mapped list is there exactly if the callback answers for every element. -/
theorem map_ofList_eq_ok_iff {f : Value → Outcome Value} {vs : List Value} {ys : Value} :
    map f (ofList vs) = .ok ys ↔ ∃ ws, ys = ofList ws ∧ vs.map f = ws.map .ok := by
  have hmap : map f (ofList vs) = (fun ws => ofList ws.reverse) <$> vs.reverse.mapM f := by
    rw [map_ofList, ← mapM_answered_snd f, Functor.map_map]
    simp only [List.map_reverse]
  rw [hmap, Outcome.map_eq_ok_iff]
  -- The calls go from the last element to the first, so both lists are reversed twice.
  constructor
  · rintro ⟨ws, hws, rfl⟩
    refine ⟨ws.reverse, rfl, ?_⟩
    rw [mapM_eq_ok_iff, List.map_reverse] at hws
    rw [List.map_reverse, ← hws, List.reverse_reverse]
  · rintro ⟨ws, rfl, hws⟩
    refine ⟨ws.reverse, ?_, by rw [List.reverse_reverse]⟩
    rw [mapM_eq_ok_iff, List.map_reverse, List.map_reverse, hws]

/-- Two callbacks in a row answer for a list if both of them answer. -/
theorem map_bind_eq_iff {f : ι → Outcome α} {g : α → Outcome β} {xs : List ι}
    {bs : List β} :
    xs.map (fun x => f x >>= g) = bs.map .ok ↔
      ∃ as : List α, xs.map f = as.map .ok ∧ as.map g = bs.map .ok := by
  have hcompose (as : List α) (has : xs.map f = as.map .ok) :
      xs.map (fun x => f x >>= g) = as.map g := by
    calc xs.map (fun x => f x >>= g)
      _ = (xs.map f).map (· >>= g) := by rw [List.map_map]; rfl
      _ = (as.map .ok).map (· >>= g) := by rw [has]
      _ = as.map g := by rw [List.map_map]; rfl
  constructor
  · intro h
    -- Where the two have an answer together, the first of them has one.
    have hanswers : ∀ o ∈ xs.map f, ∃ a, o = .ok a := by
      intro o ho
      obtain ⟨x, hx, rfl⟩ := List.mem_map.mp ho
      have hmem : (f x >>= g) ∈ bs.map Except.ok := by
        rw [← h]
        exact List.mem_map_of_mem hx
      obtain ⟨b, -, hb⟩ := List.mem_map.mp hmem
      obtain ⟨a, ha, -⟩ := Outcome.bind_eq_ok_iff.mp hb.symm
      exact ⟨a, ha⟩
    obtain ⟨as, has⟩ := exists_answers hanswers
    exact ⟨as, has, by rw [← hcompose as has, h]⟩
  · rintro ⟨as, has, hbs⟩
    rw [hcompose as has, hbs]

theorem map_map_eq_ok_iff {f g : Value → Outcome Value} {vs : List Value} {ys : Value} :
    (map f (ofList vs) >>= map g) = .ok ys ↔ map (fun x => f x >>= g) (ofList vs) = .ok ys := by
  simp only [Outcome.bind_eq_ok_iff, map_ofList_eq_ok_iff, map_bind_eq_iff]
  constructor
  · rintro ⟨_, ⟨ws, rfl, hws⟩, hys⟩
    obtain ⟨us, rfl, hus⟩ := map_ofList_eq_ok_iff.mp hys
    exact ⟨us, rfl, ws, hws, hus⟩
  · rintro ⟨us, rfl, ws, hws, hus⟩
    exact ⟨_, ⟨ws, rfl, hws⟩, map_ofList_eq_ok_iff.mpr ⟨us, rfl, hus⟩⟩

end Failing

/-! ## Fusion and exchange -/

/-- A left fold over a mapped list calls its callback as a left fold over the list does that maps
    each element when it comes to it. -/
theorem foldl_map_calls (f : Value → Value) (vs : List Value) {σ α : Type}
    (h : Value × α → Effect σ α) (init : α) (s : σ) :
    ∃ log outcome s', Folds h (vs.map f) init s log outcome s' ∧
      MakesCalls (fun _ h => foldl (Function.curry h) init (ofList (vs.map f))) h s log outcome s' ∧
      MakesCalls (fun _ h => foldl (fun x acc => h (f x, acc)) init (ofList vs)) h s log outcome
        s' := by
  obtain ⟨log, outcome, s', hfolds⟩ := exists_folds h (vs.map f) init s
  refine ⟨log, outcome, s', hfolds, hfolds.makesCalls fun _ h => ?_, hfolds.makesCalls fun _ h => ?_⟩
  · exact foldl_ofList (Function.curry h) init (vs.map f)
  · rw [foldl_ofList, List.foldlM_map]

/-- A callback that has an answer for everything. -/
def computing {ι β : Type} (f : ι → β) (x : ι) : Outcome β :=
  .ok (f x)

theorem map_computing (f : Value → Value) (vs : List Value) :
    map (computing f) (ofList vs) = .ok (ofList (vs.map f)) :=
  map_pure_ofList f vs

theorem filter_computing (p : Value → Bool) (vs : List Value) :
    filter (computing p) (ofList vs) = .ok (ofList (vs.filter p)) :=
  filter_pure_ofList p vs

/-- `op` after `op'` and `other` after `other'` both turn `xs` into `zs`. -/
def Exchange (op op' other other' : Value → Outcome Value) (xs zs : Value) : Prop :=
  (op' xs >>= op) = .ok zs ∧ (other' xs >>= other) = .ok zs

theorem exchange_filter_map (p : Value → Bool) (f : Value → Value) (vs : List Value) :
    Exchange (filter (computing p)) (map (computing f)) (map (computing f))
      (filter (computing fun x => p (f x))) (ofList vs) (ofList ((vs.map f).filter p)) := by
  constructor
  · rw [map_computing]
    exact filter_computing p (vs.map f)
  · rw [filter_computing, List.filter_map]
    exact map_computing f (vs.filter fun x => p (f x))

theorem exchange_filter_filter (p q : Value → Bool) (vs : List Value) :
    Exchange (filter (computing p)) (filter (computing q)) (filter (computing q))
      (filter (computing p)) (ofList vs) (ofList (vs.filter fun x => p x && q x)) := by
  constructor
  · rw [filter_computing, ← List.filter_filter]
    exact filter_computing p (vs.filter q)
  · have hswap : (fun x => p x && q x) = fun x => q x && p x := funext fun x => Bool.and_comm _ _
    rw [filter_computing, hswap, ← List.filter_filter]
    exact filter_computing q (vs.filter p)

theorem exchange_reverse_map (f : Value → Value) (vs : List Value) :
    Exchange reverse (map (computing f)) (map (computing f)) reverse (ofList vs)
      (ofList (vs.map f).reverse) := by
  constructor
  · rw [map_computing]
    exact reverse_ofList (vs.map f)
  · rw [reverse_ofList, ← List.map_reverse]
    exact map_computing f vs.reverse

theorem exchange_reverse_filter (p : Value → Bool) (vs : List Value) :
    Exchange reverse (filter (computing p)) (filter (computing p)) reverse (ofList vs)
      (ofList (vs.filter p).reverse) := by
  constructor
  · rw [filter_computing]
    exact reverse_ofList (vs.filter p)
  · rw [reverse_ofList, ← List.filter_reverse]
    exact filter_computing p vs.reverse

/-- The laws by which two passes over a list become one or change places. A fold after `map` makes
    the same calls, with the same end and the same first failure, as a fold that maps on its way.
    Two maps whose callbacks may fail have a result exactly if one map with both callbacks has it.
    With callbacks that do not fail, `filter` changes places with `map`, with another `filter` and
    with `reverse`, and `map` changes places with `reverse`. -/
theorem passes_fuse (vs : List Value) :
    (∀ f : Value → Value, ∃ ys, map (computing f) (ofList vs) = .ok ys ∧
      ∀ (σ α : Type) (h : Value × α → Effect σ α) (init : α) (s : σ), ∃ log outcome s',
        Folds h (vs.map f) init s log outcome s' ∧
        MakesCalls (fun _ h => foldl (Function.curry h) init ys) h s log outcome s' ∧
        MakesCalls (fun _ h => foldl (fun x acc => h (f x, acc)) init (ofList vs)) h s log outcome
          s') ∧
    (∀ (f g : Value → Outcome Value) (ys : Value),
      (map f (ofList vs) >>= map g) = .ok ys ↔ map (fun x => f x >>= g) (ofList vs) = .ok ys) ∧
    (∀ (p : Value → Bool) (f : Value → Value),
      Exchange (filter (computing p)) (map (computing f)) (map (computing f))
        (filter (computing fun x => p (f x))) (ofList vs) (ofList ((vs.map f).filter p))) ∧
    (∀ p q : Value → Bool,
      Exchange (filter (computing p)) (filter (computing q)) (filter (computing q))
        (filter (computing p)) (ofList vs) (ofList (vs.filter fun x => p x && q x))) ∧
    (∀ f : Value → Value,
      Exchange reverse (map (computing f)) (map (computing f)) reverse (ofList vs)
        (ofList (vs.map f).reverse)) ∧
    (∀ p : Value → Bool,
      Exchange reverse (filter (computing p)) (filter (computing p)) reverse (ofList vs)
        (ofList (vs.filter p).reverse)) := by
  refine ⟨fun f => ?_, fun f g ys => map_map_eq_ok_iff, fun p f => ?_, fun p q => ?_, fun f => ?_,
    fun p => ?_⟩
  · exact ⟨_, map_computing f vs, fun σ α h init s => foldl_map_calls f vs h init s⟩
  · exact exchange_filter_map p f vs
  · exact exchange_filter_filter p q vs
  · exact exchange_reverse_map f vs
  · exact exchange_reverse_filter p vs

-- The first of two maps fails at the second element, where one map with both callbacks never comes:
-- it has already failed at the third.
example :
    let f (x : Value) : Outcome Value := .number <$> x.toNumber
    let g (_ : Value) : Outcome Value := .error (noElement "first")
    (map f (ofList [.nil, .text "a", .number 1]) >>= map g) =
        .error (.of (.wrongKind "Num" "Text")) ∧
      map (fun x => f x >>= g) (ofList [.nil, .text "a", .number 1]) =
        .error (.of (.emptyList "first")) :=
  ⟨rfl, rfl⟩

end Sequence

end TaggedEval
