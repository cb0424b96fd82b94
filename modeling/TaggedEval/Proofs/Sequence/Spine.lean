import Mathlib.Data.List.Basic
import TaggedEval.Sequence.Fold

/-!
# Folds along a chain of cells

Every value is a chain of cells in exactly one way. On a chain the left fold is the monadic fold
over the list of heads, followed by a look at the end; the operations that start with `reverse` are
monadic folds over the reversed heads, or nothing but a failure when the end is not `nil`.
-/

namespace TaggedEval

namespace Sequence

/-- The value with these heads, in order, in front of `stop`. -/
def chain (heads : List Value) (stop : Value) : Value :=
  heads.foldr Value.cons stop

@[simp] theorem chain_nil (stop : Value) : chain [] stop = stop := rfl

@[simp] theorem chain_cons (head : Value) (heads : List Value) (stop : Value) :
    chain (head :: heads) stop = .cons head (chain heads stop) := rfl

theorem chain_append (heads heads' : List Value) (stop : Value) :
    chain (heads ++ heads') stop = chain heads (chain heads' stop) :=
  List.foldr_append

theorem ofList_eq_chain (vs : List Value) : ofList vs = chain vs .nil := rfl

theorem isCell_spine (xs : Value) : isCell (spine xs).2 = false := by
  induction xs using induct with
  | stop v h => rw [spine_of_not_cell h]; exact h
  | cell head tail ih => rw [spine_cons]; exact ih

theorem chain_spine (xs : Value) : chain (spine xs).1 (spine xs).2 = xs := by
  induction xs using induct with
  | stop v h => rw [spine_of_not_cell h, chain_nil]
  | cell head tail ih => rw [spine_cons, chain_cons, ih]

theorem spine_chain (heads : List Value) {stop : Value} (hstop : isCell stop = false) :
    spine (chain heads stop) = (heads, stop) := by
  induction heads with
  | nil => exact spine_of_not_cell hstop
  | cons head heads ih => rw [chain_cons, spine_cons, ih]

theorem exists_chain (xs : Value) : ∃ heads stop, isCell stop = false ∧ chain heads stop = xs :=
  ⟨_, _, isCell_spine xs, chain_spine xs⟩

theorem eq_of_chain_eq {heads heads' : List Value} {stop stop' : Value}
    (hstop : isCell stop = false) (hstop' : isCell stop' = false)
    (h : chain heads stop = chain heads' stop') : heads = heads' ∧ stop = stop' := by
  have hspine : (heads, stop) = (heads', stop') := by
    rw [← spine_chain heads hstop, h, spine_chain heads' hstop']
  exact Prod.mk.inj hspine

theorem ofList_injective : Function.Injective ofList := by
  intro vs ws h
  rw [ofList_eq_chain, ofList_eq_chain] at h
  exact (eq_of_chain_eq rfl rfl h).1

/-! ## The left fold -/

section Monadic

variable {m : Type → Type} [Monad m] [MonadExcept Failure m] {α β : Type}

theorem foldl_of_not_list (f : Value → α → m α) (init : α) {v : Value} (hcell : isCell v = false)
    (hnil : v ≠ .nil) : foldl f init v = throw (v.mismatch "List") := by
  rw [foldl]
  · exact hnil
  · exact ne_cons_of_not_cell hcell

variable [LawfulMonad m]

theorem foldl_chain (f : Value → α → m α) (init : α) (heads : List Value) (stop : Value) :
    foldl f init (chain heads stop) =
      heads.foldlM (fun acc x => f x acc) init >>= fun acc => foldl f acc stop := by
  induction heads generalizing init with
  | nil => rw [chain_nil, List.foldlM_nil, pure_bind]
  | cons head heads ih =>
    rw [chain_cons, foldl_cons, List.foldlM_cons, bind_assoc]
    exact bind_congr fun acc => ih acc

theorem foldl_ofList (f : Value → α → m α) (init : α) (vs : List Value) :
    foldl f init (ofList vs) = vs.foldlM (fun acc x => f x acc) init := by
  rw [ofList_eq_chain, foldl_chain]
  exact bind_pure _

end Monadic

/-! ## Reversal -/

theorem foldlM_prepend (vs : List Value) (acc : Value) :
    (vs.foldlM (fun acc x => pure (Value.cons x acc)) acc : Outcome Value) =
      .ok (chain vs.reverse acc) := by
  rw [List.foldlM_pure, chain, List.foldr_reverse]
  rfl

theorem reverse_ofList (vs : List Value) : reverse (ofList vs) = .ok (ofList vs.reverse) := by
  rw [reverse, foldl_ofList, foldlM_prepend, ofList_eq_chain]

theorem reverse_of_not_list (heads : List Value) {stop : Value} (hcell : isCell stop = false)
    (hnil : stop ≠ .nil) : reverse (chain heads stop) = .error (stop.mismatch "List") := by
  rw [reverse, foldl_chain, foldlM_prepend]
  exact foldl_of_not_list _ _ hcell hnil

/-! ## Folds over the reversed list -/

section Reversed

variable {m : Type → Type} [Monad m] {α β : Type}

/-- Calls `f` and keeps the argument beside the answer. -/
def answered {ι : Type} (f : ι → m β) (x : ι) : m (ι × β) :=
  Prod.mk x <$> f x

-- The calls do not depend on the accumulator, so they can all be made before it is built.
theorem foldlM_answers [LawfulMonad m] (next : Value × β → α → α) (f : Value → m β) (init : α)
    (vs : List Value) :
    vs.foldlM (fun acc x => (fun y => next (x, y) acc) <$> f x) init =
      (fun calls => calls.reverse.foldr next init) <$> vs.mapM (answered f) := by
  induction vs generalizing init with
  | nil => simp
  | cons v vs ih => simp [answered, ih]

theorem foldr_select {ι : Type} (keep : ι → Bool) (value : ι → Value) (calls : List ι) :
    calls.foldr (fun call acc => if keep call then .cons (value call) acc else acc) .nil =
      ofList ((calls.filter keep).map value) := by
  induction calls with
  | nil => rfl
  | cons call calls ih =>
    rw [List.foldr_cons, ih, List.filter_cons]
    cases keep call <;> rfl

variable [MonadExcept Failure m]

theorem foldr_of_not_list (f : Value → α → m α) (init : α) (heads : List Value) {stop : Value}
    (hcell : isCell stop = false) (hnil : stop ≠ .nil) :
    foldr f init (chain heads stop) = (throw (stop.mismatch "List") >>= foldl f init) := by
  rw [foldr, reverse_of_not_list heads hcell hnil]
  rfl

variable [LawfulMonad m]

theorem foldr_ofList (f : Value → α → m α) (init : α) (vs : List Value) :
    foldr f init (ofList vs) = vs.reverse.foldlM (fun acc x => f x acc) init := by
  rw [foldr, reverse_ofList]
  show (pure (ofList vs.reverse) >>= fun ys => foldl f init ys) = _
  rw [pure_bind, foldl_ofList]

/-- A fold that asks `f` about each element and puts `value` of the question and answer in front
    of the result, unless `keep` rejects them. -/
theorem foldr_ofList_select (keep : Value × β → Bool) (value : Value × β → Value)
    (f : Value → m β) (vs : List Value) :
    foldr (fun x acc =>
        (fun y => if keep (x, y) then .cons (value (x, y)) acc else acc) <$> f x) .nil (ofList vs) =
      (fun calls => ofList ((calls.reverse.filter keep).map value)) <$>
        vs.reverse.mapM (answered f) := by
  rw [foldr_ofList,
    foldlM_answers fun call acc => if keep call = true then Value.cons (value call) acc else acc]
  simp only [foldr_select]

theorem map_ofList (f : Value → m Value) (vs : List Value) :
    map f (ofList vs) =
      (fun calls => ofList (calls.reverse.map Prod.snd)) <$> vs.reverse.mapM (answered f) := by
  have h := foldr_ofList_select (fun _ => true) Prod.snd f vs
  simp only [if_true, List.filter_true] at h
  rw [map, ← h]
  simp only [bind_pure_comp]

theorem filter_ofList (p : Value → m Bool) (vs : List Value) :
    filter p (ofList vs) =
      (fun calls => ofList ((calls.reverse.filter (·.2)).map Prod.fst)) <$>
        vs.reverse.mapM (answered p) := by
  rw [filter, ← foldr_ofList_select Prod.snd Prod.fst p vs]
  simp only [bind_pure_comp]

theorem reject_ofList (p : Value → m Bool) (vs : List Value) :
    reject p (ofList vs) =
      (fun calls => ofList ((calls.reverse.filter (!·.2)).map Prod.fst)) <$>
        vs.reverse.mapM (answered p) := by
  rw [reject, filter, ← foldr_ofList_select (!·.2) Prod.fst p vs]
  simp only [bind_pure_comp, Functor.map_map]

end Reversed

end Sequence

end TaggedEval
