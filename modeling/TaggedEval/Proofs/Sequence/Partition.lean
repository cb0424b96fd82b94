import Mathlib
import TaggedEval.Proofs.Sequence.Fusion

/-!
# The two parts of a list

`filter` and `reject` ask a predicate about the same elements in the same order, so they succeed
together and fail together. When they succeed, each occurrence of an element is in exactly one of
the two results and the order is kept. This is said by `Split`, which goes along the list and not by
equality of elements: equal elements are apart, and so are two NaNs, which equal nothing.
-/

namespace TaggedEval

namespace Sequence

variable {p : Value → Outcome Bool} {vs kept dropped : List Value}

/-- `vs` is merged from `kept` and `dropped`, each in its order: `p` holds for the elements that are
    taken from `kept`, and not for those from `dropped`. -/
inductive Split (p : Value → Outcome Bool) : List Value → List Value → List Value → Prop
  | nil : Split p [] [] []
  | keep {x : Value} {vs kept dropped : List Value} (answer : p x = .ok true)
      (rest : Split p vs kept dropped) : Split p (x :: vs) (x :: kept) dropped
  | drop {x : Value} {vs kept dropped : List Value} (answer : p x = .ok false)
      (rest : Split p vs kept dropped) : Split p (x :: vs) kept (x :: dropped)

theorem exists_split (h : ∀ v ∈ vs, ∃ b, p v = .ok b) :
    ∃ kept dropped, Split p vs kept dropped := by
  induction vs with
  | nil => exact ⟨[], [], .nil⟩
  | cons v vs ih =>
    obtain ⟨⟨b, hb⟩, hvs⟩ := List.forall_mem_cons.mp h
    obtain ⟨kept, dropped, hsplit⟩ := ih hvs
    cases b with
    | true => exact ⟨_, _, .keep hb hsplit⟩
    | false => exact ⟨_, _, .drop hb hsplit⟩

theorem Split.length_eq (h : Split p vs kept dropped) :
    vs.length = kept.length + dropped.length := by
  induction h with
  | nil => rfl
  | keep _ _ ih => simp only [List.length_cons, ih]; omega
  | drop _ _ ih => simp only [List.length_cons, ih]; omega

/-- What is kept is kept again. -/
theorem Split.of_kept (h : Split p vs kept dropped) : Split p kept kept [] := by
  induction h with
  | nil => exact .nil
  | keep answer _ ih => exact .keep answer ih
  | drop _ _ ih => exact ih

/-- What is dropped is dropped again. -/
theorem Split.of_dropped (h : Split p vs kept dropped) : Split p dropped [] dropped := by
  induction h with
  | nil => exact .nil
  | keep _ _ ih => exact ih
  | drop answer _ ih => exact .drop answer ih

theorem Split.exists_calls (h : Split p vs kept dropped) :
    ∃ calls : List (Value × Bool), vs.map (answered p) = calls.map .ok ∧
      (calls.filter fun call => call.2).map Prod.fst = kept ∧
      (calls.filter fun call => !call.2).map Prod.fst = dropped := by
  induction h with
  | nil => exact ⟨[], rfl, rfl, rfl⟩
  | @keep x vs _ _ answer _ ih =>
    obtain ⟨calls, hcalls, rfl, rfl⟩ := ih
    refine ⟨(x, true) :: calls, ?_, rfl, rfl⟩
    rw [List.map_cons, List.map_cons, hcalls, answered, answer]
    rfl
  | @drop x vs _ _ answer _ ih =>
    obtain ⟨calls, hcalls, rfl, rfl⟩ := ih
    refine ⟨(x, false) :: calls, ?_, rfl, rfl⟩
    rw [List.map_cons, List.map_cons, hcalls, answered, answer]
    rfl

theorem Split.filter_reject (h : Split p vs kept dropped) :
    filter p (ofList vs) = .ok (ofList kept) ∧ reject p (ofList vs) = .ok (ofList dropped) := by
  obtain ⟨calls, hcalls, rfl, rfl⟩ := h.exists_calls
  have hanswers : vs.reverse.mapM (answered p) = .ok calls.reverse := by
    rw [mapM_eq_ok_iff, List.map_reverse, List.map_reverse, hcalls]
  rw [filter_ofList, reject_ofList, hanswers]
  simp only [Functor.map, Except.map, List.reverse_reverse, and_self]

/-! ## Failures -/

theorem mapM_eq_error {ι β : Type} {f : ι → Outcome β} {before : List ι} {x : ι}
    {failure : Failure} (hbefore : ∀ y ∈ before, ∃ b, f y = .ok b) (hx : f x = .error failure)
    (after : List ι) : (before ++ x :: after).mapM f = .error failure := by
  have hanswers : ∀ o ∈ before.map f, ∃ b, o = .ok b := List.forall_mem_map.mpr hbefore
  obtain ⟨bs, hbs⟩ := exists_answers hanswers
  rw [List.mapM_append, mapM_eq_ok_iff.mpr hbs, List.mapM_cons, hx]
  rfl

/-- The two operations make the same calls, so the first failure is the same. -/
theorem filter_reject_eq_error {failure : Failure}
    (h : vs.reverse.mapM (answered p) = .error failure) :
    filter p (ofList vs) = .error failure ∧ reject p (ofList vs) = .error failure := by
  rw [filter_ofList, reject_ofList, h]
  exact ⟨rfl, rfl⟩

theorem filter_reject_of_last_failure {before after : List Value} {x : Value} {failure : Failure}
    (hx : p x = .error failure) (hafter : ∀ y ∈ after, ∃ b, p y = .ok b) :
    filter p (ofList (before ++ x :: after)) = .error failure ∧
      reject p (ofList (before ++ x :: after)) = .error failure := by
  apply filter_reject_eq_error
  have hanswers : ∀ y ∈ after.reverse, ∃ call, answered p y = .ok call := by
    intro y hy
    obtain ⟨b, hb⟩ := hafter y (List.mem_reverse.mp hy)
    exact ⟨(y, b), by rw [answered, hb]; rfl⟩
  have hfails : answered p x = .error failure := by
    rw [answered, hx]
    rfl
  -- The elements behind `x` are asked about first.
  rw [List.reverse_append, List.reverse_cons, List.append_assoc]
  exact mapM_eq_error hanswers hfails before.reverse

theorem filter_eq_error_iff (p : Value → Outcome Bool) (xs : Value) (failure : Failure) :
    filter p xs = .error failure ↔ reject p xs = .error failure := by
  obtain ⟨heads, stop, hcell, rfl⟩ := exists_chain xs
  by_cases hnil : stop = .nil
  · subst hnil
    rw [← ofList_eq_chain, filter_ofList, reject_ofList]
    cases heads.reverse.mapM (answered p) with
    | error failure' => exact Iff.rfl
    | ok calls => exact ⟨nofun, nofun⟩
  · rw [filter, foldr_of_not_list _ _ heads hcell hnil, reject, filter,
      foldr_of_not_list _ _ heads hcell hnil]
    exact Iff.rfl

/-- `filter` and `reject` fail alike: on a value that is no list, and on a list of which `p` refuses
    an element, with the failure of the last one that it refuses. On any other list they split the
    elements between them. Once more, `filter` leaves the kept part as it is and nothing of the
    dropped one, and `reject` the other way round. -/
theorem filter_reject_partition (p : Value → Outcome Bool) (xs : Value) :
    (∀ failure, filter p xs = .error failure ↔ reject p xs = .error failure) ∧
      ∃ heads stop, (isCell stop = false ∧ chain heads stop = xs) ∧
        (stop ≠ .nil → filter p xs = .error (.of (.wrongKind "List" stop.kind))) ∧
        (stop = .nil → ∀ before x after failure, heads = before ++ x :: after →
          p x = .error failure → (∀ y ∈ after, ∃ b, p y = .ok b) →
            filter p xs = .error failure) ∧
        (stop = .nil → (∀ x ∈ heads, ∃ b, p x = .ok b) → ∃ kept dropped k d,
          filter p xs = .ok (ofList kept) ∧ reject p xs = .ok (ofList dropped) ∧
          Split p heads kept dropped ∧
          length (ofList kept) = .ok k ∧ length (ofList dropped) = .ok d ∧
          length xs = .ok (k + d) ∧
          filter p (ofList kept) = .ok (ofList kept) ∧ reject p (ofList kept) = .ok .nil ∧
          filter p (ofList dropped) = .ok .nil ∧
          reject p (ofList dropped) = .ok (ofList dropped)) := by
  refine ⟨filter_eq_error_iff p xs, ?_⟩
  obtain ⟨heads, stop, hcell, rfl⟩ := exists_chain xs
  refine ⟨heads, stop, ⟨hcell, rfl⟩, fun hnil => ?_, ?_, ?_⟩
  · exact foldr_of_not_list _ _ heads hcell hnil
  · rintro rfl before x after failure rfl hx hafter
    exact (filter_reject_of_last_failure hx hafter).1
  · rintro rfl hanswers
    obtain ⟨kept, dropped, hsplit⟩ := exists_split hanswers
    obtain ⟨hfilter, hreject⟩ := hsplit.filter_reject
    obtain ⟨hkeep, hkeep'⟩ := hsplit.of_kept.filter_reject
    obtain ⟨hdrop, hdrop'⟩ := hsplit.of_dropped.filter_reject
    refine ⟨kept, dropped, _, _, hfilter, hreject, hsplit, length_ofList kept,
      length_ofList dropped, ?_, hkeep, hkeep', hdrop, hdrop'⟩
    rw [← hsplit.length_eq]
    exact length_ofList heads

/-- A NaN equals nothing, but it is an element like others. -/
theorem filter_reject_partition_nan :
    Split (fun x => Float.isNaN <$> x.toNumber) [.number (0 / 0), .number 1, .number (0 / 0)]
        [.number (0 / 0), .number (0 / 0)] [.number 1] ∧
      reject (fun x => Float.isNaN <$> x.toNumber)
        (ofList [.number (0 / 0), .number (0 / 0)]) = .ok .nil := by
  obtain ⟨heads, stop, ⟨hcell, hxs⟩, -, -, hparts⟩ :=
    (filter_reject_partition (fun x => Float.isNaN <$> x.toNumber)
      (ofList [.number (0 / 0), .number 1, .number (0 / 0)])).2
  obtain ⟨rfl, rfl⟩ := eq_of_chain_eq hcell rfl hxs
  have hanswers : ∀ x ∈ [Value.number (0 / 0), .number 1, .number (0 / 0)],
      ∃ b, Float.isNaN <$> x.toNumber = .ok b := by
    simp only [List.forall_mem_cons]
    exact ⟨⟨_, rfl⟩, ⟨_, rfl⟩, ⟨_, rfl⟩, nofun⟩
  obtain ⟨kept, dropped, k, d, hfilter, hreject, hsplit, -, -, -, -, hagain, -⟩ :=
    hparts rfl hanswers
  obtain rfl : [.number (0 / 0), .number (0 / 0)] = kept := ofList_injective (Except.ok.inj hfilter)
  obtain rfl : [.number 1] = dropped := ofList_injective (Except.ok.inj hreject)
  exact ⟨hsplit, hagain⟩

end Sequence

end TaggedEval
