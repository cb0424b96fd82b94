import TaggedEval.Proofs.Sequence.Spine
import TaggedEval.Sequence.Access

/-!
# All traversals agree on what a list is

`toList` and `last` walk along the cells on their own, `length` and `reverse` fold, `map` and
`filter` fold twice. Each operation is described here on a list and on a chain that ends in some
other value. They accept the same values and refuse all others with the same failure
(`traversals_agree`).
-/

namespace TaggedEval

namespace Sequence

/-! ## Collecting the elements -/

theorem collect_of_not_list (seen : List Value) {v : Value} (hcell : isCell v = false)
    (hnil : v ≠ .nil) : collect seen v = .error (v.mismatch "List") := by
  rw [collect]
  · exact hnil
  · exact ne_cons_of_not_cell hcell

theorem collect_chain (seen heads : List Value) (stop : Value) :
    collect seen (chain heads stop) = collect (heads.reverse ++ seen) stop := by
  induction heads generalizing seen with
  | nil => rfl
  | cons head heads ih =>
    rw [chain_cons, List.reverse_cons, List.append_assoc, List.singleton_append]
    exact ih (head :: seen)

theorem toList_ofList (vs : List Value) : toList (ofList vs) = .ok vs := by
  rw [toList, ofList_eq_chain, collect_chain, List.append_nil]
  exact congrArg Except.ok vs.reverse_reverse

theorem toList_of_not_list (heads : List Value) {stop : Value} (hcell : isCell stop = false)
    (hnil : stop ≠ .nil) : toList (chain heads stop) = .error (stop.mismatch "List") := by
  rw [toList, collect_chain, collect_of_not_list _ hcell hnil]

theorem toList_eq_ok_iff {xs : Value} {vs : List Value} :
    toList xs = .ok vs ↔ xs = ofList vs := by
  constructor
  · intro h
    obtain ⟨heads, stop, hcell, rfl⟩ := exists_chain xs
    by_cases hnil : stop = .nil
    · subst hnil
      rw [← ofList_eq_chain, toList_ofList] at h
      cases h
      rfl
    · rw [toList_of_not_list heads hcell hnil] at h
      cases h
  · rintro rfl
    exact toList_ofList vs

/-! ## Folds that do not fail -/

section Total

variable {α : Type} (f : Value → α → α) (init : α)

theorem foldl_pure_ofList (vs : List Value) :
    (foldl (fun x acc => pure (f x acc)) init (ofList vs) : Outcome α) =
      .ok (vs.foldl (fun acc x => f x acc) init) := by
  rw [foldl_ofList, List.foldlM_pure]
  rfl

theorem foldl_pure_of_not_list (heads : List Value) {stop : Value} (hcell : isCell stop = false)
    (hnil : stop ≠ .nil) :
    (foldl (fun x acc => pure (f x acc)) init (chain heads stop) : Outcome α) =
      .error (stop.mismatch "List") := by
  rw [foldl_chain, List.foldlM_pure, pure_bind, foldl_of_not_list _ _ hcell hnil]
  rfl

end Total

theorem length_ofList (vs : List Value) : length (ofList vs) = .ok vs.length := by
  rw [length, foldl_pure_ofList (fun _ n => n + 1), List.foldl_add_const, Nat.one_mul, Nat.zero_add]

theorem length_of_not_list (heads : List Value) {stop : Value} (hcell : isCell stop = false)
    (hnil : stop ≠ .nil) : length (chain heads stop) = .error (stop.mismatch "List") :=
  foldl_pure_of_not_list (fun _ n => n + 1) 0 heads hcell hnil

/-! ## Callbacks that only compute -/

section Pure

variable {m : Type → Type} [Monad m] [LawfulMonad m]

theorem mapM_answered_pure {ι β : Type} (g : ι → β) (xs : List ι) :
    xs.mapM (answered fun x => (pure (g x) : m β)) = pure (xs.map fun x => (x, g x)) := by
  have hanswered : answered (fun x => (pure (g x) : m β)) = fun x => pure (x, g x) := by
    funext x
    rw [answered, map_pure]
  rw [hanswered, List.mapM_pure]

variable [MonadExcept Failure m]

theorem map_pure_ofList (g : Value → Value) (vs : List Value) :
    map (fun x => pure (g x)) (ofList vs) = (pure (ofList (vs.map g)) : m Value) := by
  rw [map_ofList, mapM_answered_pure, map_pure, ← List.map_reverse, List.reverse_reverse,
    List.map_map]
  rfl

theorem filter_pure_ofList (p : Value → Bool) (vs : List Value) :
    filter (fun x => pure (p x)) (ofList vs) = (pure (ofList (vs.filter p)) : m Value) := by
  rw [filter_ofList, mapM_answered_pure, map_pure, ← List.map_reverse, List.reverse_reverse,
    List.filter_map, List.map_map]
  simp [Function.comp_def]

end Pure

/-! ## The last element -/

theorem lastAfter_of_not_list (x : Value) (heads : List Value) {stop : Value}
    (hcell : isCell stop = false) (hnil : stop ≠ .nil) :
    lastAfter x (chain heads stop) = .error (stop.mismatch "List") := by
  induction heads generalizing x with
  | nil =>
    rw [chain_nil, lastAfter]
    · exact hnil
    · exact ne_cons_of_not_cell hcell
  | cons head heads ih => exact ih head

theorem view_of_not_list {v : Value} (hcell : isCell v = false) (hnil : v ≠ .nil) :
    view v = .error (v.mismatch "List") := by
  rw [view]
  · exact hnil
  · exact ne_cons_of_not_cell hcell

theorem eq_of_view {v : Value} {x : View} (h : view v = .ok x) :
    (v = .nil ∧ x = .nil) ∨ ∃ head tail, v = .cons head tail ∧ x = .cons head tail := by
  unfold view at h
  split at h
  · cases h
    exact .inl ⟨rfl, rfl⟩
  · cases h
    exact .inr ⟨_, _, rfl, rfl⟩
  · cases h

theorem view_eq_nil_iff {v : Value} : view v = .ok .nil ↔ v = .nil := by
  constructor
  · intro hview
    rcases eq_of_view hview with ⟨hv, -⟩ | ⟨_, _, -, hx⟩
    · exact hv
    · cases hx
  · rintro rfl
    rfl

theorem view_eq_cons_iff {v head tail : Value} :
    view v = .ok (.cons head tail) ↔ v = .cons head tail := by
  constructor
  · intro hview
    rcases eq_of_view hview with ⟨-, hx⟩ | ⟨_, _, hv, hx⟩
    · cases hx
    · cases hx
      exact hv
  · rintro rfl
    rfl

theorem last_of_not_list (heads : List Value) {stop : Value} (hcell : isCell stop = false)
    (hnil : stop ≠ .nil) : last (chain heads stop) = .error (stop.mismatch "List") := by
  cases heads with
  | nil =>
    rw [chain_nil, last, view_of_not_list hcell hnil]
    rfl
  | cons head heads => exact lastAfter_of_not_list head heads hcell hnil

theorem lastAfter_ofList_append_singleton (y : Value) (vs : List Value) (x : Value) :
    lastAfter y (ofList (vs ++ [x])) = .ok x := by
  induction vs generalizing y with
  | nil => rfl
  | cons v vs ih => exact ih v

theorem last_ofList_append_singleton (vs : List Value) (x : Value) :
    last (ofList (vs ++ [x])) = .ok x := by
  cases vs with
  | nil => rfl
  | cons v vs => exact lastAfter_ofList_append_singleton v vs x

theorem head_reverse_ofList_append_singleton (vs : List Value) (x : Value) :
    (reverse (ofList (vs ++ [x])) >>= head) = .ok x := by
  rw [reverse_ofList, List.reverse_append, List.reverse_singleton, List.singleton_append]
  rfl

/-- The last element is the first one of the reversed list; a value that is no list has neither. -/
theorem last_eq_head_reverse {xs : Value} (h : xs ≠ .nil) : last xs = (reverse xs >>= head) := by
  obtain ⟨heads, stop, hcell, rfl⟩ := exists_chain xs
  by_cases hnil : stop = .nil
  · subst hnil
    rcases List.eq_nil_or_concat heads with rfl | ⟨vs, x, rfl⟩
    · exact absurd rfl h
    · rw [← ofList_eq_chain, List.concat_eq_append, last_ofList_append_singleton,
        head_reverse_ofList_append_singleton]
  · rw [last_of_not_list heads hcell hnil, reverse_of_not_list heads hcell hnil]
    rfl

/-! ## All of them -/

/-- Every value is a chain of cells in front of some other value. If that is not `nil`, all
    traversals fail, and the failure names its kind. If it is `nil`, they succeed, and say of the
    same elements in the same order how many they are, what they are, and what they are in reverse;
    mapping the identity and keeping everything gives the value back as it is. The last element is
    the first one of the reversed list, but an empty list is reported by each under its own name. -/
theorem traversals_agree (xs : Value) :
    ∃ heads stop, (isCell stop = false ∧ chain heads stop = xs) ∧
      (stop ≠ .nil →
        toList xs = .error (.of (.wrongKind "List" stop.kind)) ∧
        length xs = .error (.of (.wrongKind "List" stop.kind)) ∧
        reverse xs = .error (.of (.wrongKind "List" stop.kind)) ∧
        (map pure xs : Outcome Value) = .error (.of (.wrongKind "List" stop.kind)) ∧
        (filter (fun _ => pure true) xs : Outcome Value) =
          .error (.of (.wrongKind "List" stop.kind))) ∧
      (stop = .nil →
        toList xs = .ok heads ∧
        length xs = .ok heads.length ∧
        (∃ ys, reverse xs = .ok ys ∧ toList ys = .ok heads.reverse ∧ reverse ys = .ok xs) ∧
        (map pure xs : Outcome Value) = .ok xs ∧
        (filter (fun _ => pure true) xs : Outcome Value) = .ok xs) ∧
      (xs ≠ .nil → last xs = (reverse xs >>= head)) ∧
      (xs = .nil → last xs = .error (.of (.emptyList "last")) ∧
        (reverse xs >>= head) = .error (.of (.emptyList "first"))) := by
  obtain ⟨heads, stop, hcell, hxs⟩ := exists_chain xs
  refine ⟨heads, stop, ⟨hcell, hxs⟩, fun hnil => ?_, ?_, last_eq_head_reverse, ?_⟩
  · subst hxs
    have hreverse := reverse_of_not_list heads hcell hnil
    refine ⟨toList_of_not_list heads hcell hnil, length_of_not_list heads hcell hnil, hreverse,
      ?_, ?_⟩
    · exact foldr_of_not_list _ _ heads hcell hnil
    · exact foldr_of_not_list _ _ heads hcell hnil
  · rintro rfl
    rw [← ofList_eq_chain] at hxs
    subst hxs
    refine ⟨toList_ofList heads, length_ofList heads, ?_, ?_, ?_⟩
    · refine ⟨_, reverse_ofList heads, toList_ofList _, ?_⟩
      rw [reverse_ofList, List.reverse_reverse]
    · have hmap := map_pure_ofList (m := Outcome) id heads
      rwa [List.map_id] at hmap
    · have hfilter := filter_pure_ofList (m := Outcome) (fun _ => true) heads
      rwa [List.filter_true] at hfilter
  · rintro rfl
    exact ⟨rfl, rfl⟩

end Sequence

end TaggedEval
