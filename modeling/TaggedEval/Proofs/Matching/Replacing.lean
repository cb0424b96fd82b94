import Mathlib.Data.List.Forall2
import TaggedEval.Proofs.Matching.Selection
import TaggedEval.Proofs.Matching.Typed

/-!
# Replacing arms of a table

A match depends on its table only through the number of arms and the arm at the tag of the
scrutinee, and on that arm only through what it does with the fields (`run_congr`). So the other arms
can be replaced, arms can be added behind the selected one, and an arm for a fixed number of fields
can be given as one that takes them as a list (`Arm.Listed`): no run tells the tables apart
(`Interchangeable`).
-/

namespace TaggedEval

open Sequence (Effect perform)

variable {m : Type → Type} {σ α : Type}

/-! ## Arms that take their fields as a list -/

namespace Arm

/-- The second arm takes its fields as one list, and does on them what the first one does. What it
    would do on a list of another length is open. -/
inductive Listed : Arm m α → Arm m α → Prop
  | nullary {run : m α} {body : List Value → m α} (h : body [] = run) :
    Listed (.nullary run) (.fields 0 body)
  | unary {run : Value → m α} {body : List Value → m α} (h : ∀ a, body [a] = run a) :
    Listed (.unary run) (.fields 1 body)
  | binary {run : Value → Value → m α} {body : List Value → m α}
      (h : ∀ a b, body [a, b] = run a b) : Listed (.binary run) (.fields 2 body)
  | ternary {run : Value → Value → Value → m α} {body : List Value → m α}
      (h : ∀ a b c, body [a, b, c] = run a b c) : Listed (.ternary run) (.fields 3 body)

theorem Listed.arity_eq {arm arm' : Arm m α} (h : arm.Listed arm') : arm'.arity = arm.arity := by
  cases h <;> rfl

theorem Listed.binds {arm arm' : Arm m α} {args : List Value} {body : m α} (h : arm.Listed arm')
    (hbinds : arm.Binds args body) : arm'.Binds args body := by
  cases hbinds with
  | nullary run =>
    obtain @⟨_, body, h⟩ := h
    exact h ▸ .fields body []
  | unary run a =>
    obtain _ | @⟨_, body, h⟩ := h
    exact h a ▸ .fields body [a]
  | binary run a b =>
    obtain _ | _ | @⟨_, body, h⟩ := h
    exact h a b ▸ .fields body [a, b]
  | ternary run a b c =>
    obtain _ | _ | _ | @⟨_, body, h⟩ := h
    exact h a b c ▸ .fields body [a, b, c]
  | fields run args => cases h

theorem Listed.apply_eq [Monad m] [MonadExcept Failure m] {arm arm' : Arm m α}
    (h : arm.Listed arm') (tag : UInt32) (args : List Value) :
    arm'.apply tag args = arm.apply tag args := by
  by_cases harity : arm.arity = args.length
  · obtain ⟨body, hbinds⟩ := exists_binds harity
    rw [apply_of_binds hbinds, apply_of_binds (h.binds hbinds)]
  · have harity' : arm'.arity ≠ args.length := h.arity_eq ▸ harity
    rw [apply_of_ne harity, apply_of_ne harity', h.arity_eq]

theorem Listed.recorded {arm arm' : Arm (Effect σ) α} (h : arm.Listed arm') (position : Nat) :
    (arm.recorded position).Listed (arm'.recorded position) := by
  cases h with
  | nullary h => exact .nullary (by rw [h])
  | unary h => exact .unary fun a => by rw [h]
  | binary h => exact .binary fun a b => by rw [h]
  | ternary h => exact .ternary fun a b c => by rw [h]

end Arm

namespace Matching

/-! ## What a match depends on -/

variable {v : Value}

theorem run_congr [Monad m] [MonadExcept Failure m] {arms arms' : List (Arm m α)}
    (hlength : ∀ tag args, v = .tagged tag args → arms.length ≤ tag.toNat →
      arms'.length = arms.length)
    (hselected : ∀ tag args, v = .tagged tag args →
      (arms'[tag.toNat]?.map fun arm => arm.apply tag args) =
        arms[tag.toNat]?.map fun arm => arm.apply tag args) :
    run v arms' = run v arms := by
  cases v with
  | number x => rfl
  | text s => rfl
  | tagged tag args =>
    have hequal := hselected tag args rfl
    cases harm : arms[tag.toNat]? with
    | none =>
      -- Only here the number of arms matters: the failure reports it.
      rw [harm, Option.map_none, Option.map_eq_none_iff] at hequal
      have hsize := hlength tag args rfl (List.getElem?_eq_none_iff.mp harm)
      simp only [run, harm, hequal, hsize]
    | some arm =>
      rw [harm, Option.map_some, Option.map_eq_some_iff] at hequal
      obtain ⟨arm', harm', happly⟩ := hequal
      simp only [run, harm, harm', happly]

theorem checkArms_congr {ty : TypeDeclaration} {arms arms' : List (Arm m α)}
    (h : arms'.map Arm.arity = arms.map Arm.arity) : checkArms ty arms' = checkArms ty arms := by
  cases hcheck : checkArms ty arms with
  | ok =>
    rw [checkArms_eq_ok_iff, ← h] at hcheck
    exact checkArms_eq_ok_iff.mpr hcheck
  | error failure =>
    rw [checkArms_eq_error_iff, ← h] at hcheck
    exact checkArms_eq_error_iff.mpr hcheck

theorem runTyped_congr [Monad m] [MonadExcept Failure m] {ty : TypeDeclaration}
    {arms arms' : List (Arm m α)} (harities : arms'.map Arm.arity = arms.map Arm.arity)
    (hrun : run v arms' = run v arms) : runTyped ty v arms' = runTyped ty v arms := by
  unfold runTyped
  rw [checkArms_congr harities, hrun]

/-- Some arms of the first table are given in the second one as arms that take their fields as a
    list. -/
def Relisted (arms arms' : List (Arm m α)) : Prop :=
  List.Forall₂ (fun arm arm' => arm' = arm ∨ arm.Listed arm') arms arms'

theorem Relisted.map_eq {β : Type} {arms arms' : List (Arm m α)} (h : Relisted arms arms')
    {f : Arm m α → β} (hf : ∀ {arm arm'}, arm.Listed arm' → f arm' = f arm) :
    arms'.map f = arms.map f := by
  have hequal : List.Forall₂ (fun arm arm' => f arm = f arm') arms arms' := by
    refine h.imp fun arm arm' => ?_
    rintro (rfl | hlisted)
    · rfl
    · exact (hf hlisted).symm
  rw [← List.forall₂_map_right_iff, ← List.forall₂_map_left_iff, List.forall₂_eq_eq_eq] at hequal
  exact hequal.symm

theorem Relisted.run_eq [Monad m] [MonadExcept Failure m] {arms arms' : List (Arm m α)}
    (h : Relisted arms arms') (v : Value) : run v arms' = run v arms := by
  refine run_congr (fun _ _ _ _ => h.length_eq.symm) fun tag args _ => ?_
  rw [← List.getElem?_map, ← List.getElem?_map, h.map_eq fun hlisted => hlisted.apply_eq tag args]

theorem Relisted.runTyped_eq [Monad m] [MonadExcept Failure m] {arms arms' : List (Arm m α)}
    (h : Relisted arms arms') (ty : TypeDeclaration) (v : Value) :
    runTyped ty v arms' = runTyped ty v arms :=
  runTyped_congr (h.map_eq Arm.Listed.arity_eq) (h.run_eq v)

theorem Relisted.recorded {arms arms' : List (Arm (Effect σ) α)} (h : Relisted arms arms') :
    Relisted (recordedArms arms) (recordedArms arms') := by
  -- What an arm records is its position, so the tables are compared position by position.
  obtain ⟨hlength, hget⟩ := List.forall₂_iff_get.mp h
  refine List.forall₂_iff_get.mpr ⟨?_, fun position hposition hposition' => ?_⟩
  · rw [recordedArms, recordedArms, List.length_mapIdx, List.length_mapIdx, hlength]
  · simp only [recordedArms, List.length_mapIdx] at hposition hposition'
    simp only [recordedArms, List.get_eq_getElem, List.getElem_mapIdx]
    rcases hget position hposition hposition' with hsame | hlisted
    · exact .inl (congrArg (Arm.recorded position) hsame)
    · exact .inr (hlisted.recorded position)

/-! ## Tables that no run tells apart -/

/-- On the two tables `op` is the same computation, and it is also the same when both are recorded:
    from every state it has one outcome, leaves one state, and runs the arms at the same positions
    on the same fields. -/
structure Interchangeable (op : (σ : Type) → List (Arm (Effect σ) α) → Effect σ α)
    (arms arms' : List (Arm (Effect σ) α)) : Prop where
  plain : op σ arms' = op σ arms
  noted : op _ (recordedArms arms') = op _ (recordedArms arms)

theorem Interchangeable.runsArms_iff {op : (σ : Type) → List (Arm (Effect σ) α) → Effect σ α}
    {arms arms' : List (Arm (Effect σ) α)} (h : Interchangeable op arms arms') {s s' : σ}
    {log : List (Nat × List Value)} {outcome : Outcome α} :
    RunsArms op arms' s log outcome s' ↔ RunsArms op arms s log outcome s' := by
  constructor
  · rintro ⟨hplain, hnoted⟩
    exact ⟨h.plain ▸ hplain, h.noted ▸ hnoted⟩
  · rintro ⟨hplain, hnoted⟩
    exact ⟨h.plain.symm ▸ hplain, h.noted.symm ▸ hnoted⟩

theorem interchangeable_of_selected {arms arms' : List (Arm (Effect σ) α)}
    (hlength : ∀ tag args, v = .tagged tag args → arms.length ≤ tag.toNat →
      arms'.length = arms.length)
    (hselected : ∀ tag args, v = .tagged tag args → arms'[tag.toNat]? = arms[tag.toNat]?) :
    Interchangeable (fun _ => run v) arms arms' where
  plain := run_congr hlength fun tag args hv => by rw [hselected tag args hv]
  noted := by
    apply run_congr
    · simpa only [recordedArms, List.length_mapIdx] using hlength
    · intro tag args hv
      simp only [recordedArms, List.getElem?_mapIdx, hselected tag args hv]

/-- A match runs the arm at the tag of the scrutinee if that arm binds as many fields as there are:
    once, on the fields in their order, and no other arm, and it ends as that arm does. In every
    other case it runs no arm and fails, for the reason of `Unselected`. So no run notices that
    other arms are replaced, that arms are added behind the selected one, or, in a typed match too,
    that arms take their fields as a list. -/
theorem run_only_selected (v : Value) (arms : List (Arm (Effect σ) α)) :
    (∀ tag args arm, v = .tagged tag args → arms[tag.toNat]? = some arm →
      arm.arity = args.length →
      ∃ body, arm.Binds args body ∧ ∀ s, ∃ outcome s', perform body s = (outcome, s') ∧
        RunsArms (fun _ => run v) arms s [(tag.toNat, args)] outcome s') ∧
    ((∀ tag args arm, v = .tagged tag args → arms[tag.toNat]? = some arm →
      arm.arity ≠ args.length) →
      ∃ failure, Unselected (arms.map Arm.arity) v failure ∧
        ∀ s, RunsArms (fun _ => run v) arms s [] (.error failure) s) ∧
    (∀ arms', arms'.length = arms.length →
      (∀ tag args, v = .tagged tag args → arms'[tag.toNat]? = arms[tag.toNat]?) →
      Interchangeable (fun _ => run v) arms arms') ∧
    (∀ added, (∀ tag args, v = .tagged tag args → tag.toNat < arms.length) →
      Interchangeable (fun _ => run v) arms (arms ++ added)) ∧
    ∀ arms', Relisted arms arms' →
      Interchangeable (fun _ => run v) arms arms' ∧
      ∀ ty, Interchangeable (fun _ => runTyped ty v) arms arms' := by
  refine ⟨?_, ?_, ?_, ?_, ?_⟩
  · rintro tag args arm rfl harm harity
    obtain ⟨body, hbinds⟩ := Arm.exists_binds harity
    exact ⟨body, hbinds, fun s => ⟨_, _, rfl, runsArms_of_binds harm hbinds rfl⟩⟩
  · intro hnone
    rcases unselected_or_binds v arms with
      ⟨failure, hunselected⟩ | ⟨tag, args, arm, body, hv, harm, hbinds⟩
    · exact ⟨failure, hunselected, runsArms_of_unselected hunselected⟩
    · exact absurd hbinds.arity_eq (hnone tag args arm hv harm)
  · intro arms' hlength hselected
    exact interchangeable_of_selected (fun _ _ _ _ => hlength) hselected
  · intro added hcovered
    refine interchangeable_of_selected ?_ ?_
    · intro tag args hv hpast
      exact absurd (hcovered tag args hv) (Nat.not_lt.mpr hpast)
    · intro tag args hv
      exact List.getElem?_append_left (hcovered tag args hv)
  · intro arms' h
    exact ⟨⟨h.run_eq v, h.recorded.run_eq v⟩,
      fun ty => ⟨h.runTyped_eq ty v, h.recorded.runTyped_eq ty v⟩⟩

/-- A cell selects the second arm of this table. -/
def cellArms : List (Arm (Effect Unit) Value) :=
  [.nullary (throw (.of (.crash "no cell"))),
    .binary fun head tail => pure (.tagged 2 [tail, head])]

/-- The table with its second arm given as one that takes a list. -/
def relistedCellArms : List (Arm (Effect Unit) Value) :=
  [.nullary (throw (.of (.crash "no cell"))),
    .fields 2 fun fields => pure (.tagged 2 fields.reverse)]

/-- The second arm runs on the fields of the cell, also if arms are added behind it and if it takes
    its fields as a list. -/
theorem run_only_selected_cell :
    RunsArms (fun _ => run (.cons .nil (.text "tail"))) cellArms () [(1, [.nil, .text "tail"])]
      (.ok (.tagged 2 [.text "tail", .nil])) () ∧
    RunsArms (fun _ => run (.cons .nil (.text "tail"))) (cellArms ++ cellArms) ()
      [(1, [.nil, .text "tail"])] (.ok (.tagged 2 [.text "tail", .nil])) () ∧
    RunsArms (fun _ => run (.cons .nil (.text "tail"))) relistedCellArms ()
      [(1, [.nil, .text "tail"])] (.ok (.tagged 2 [.text "tail", .nil])) () := by
  obtain ⟨hselected, -, -, hadded, hrelisted⟩ :=
    run_only_selected (.cons .nil (.text "tail")) cellArms
  obtain ⟨body, hbinds, hruns⟩ := hselected 1 [.nil, .text "tail"] _ rfl rfl rfl
  cases hbinds
  obtain ⟨outcome, s', hbody, hrun⟩ := hruns ()
  cases hbody
  have hcovered : ∀ tag args, Value.cons .nil (.text "tail") = .tagged tag args →
      tag.toNat < cellArms.length := by
    intro tag args hv
    cases hv
    decide
  have hlisted : Relisted cellArms relistedCellArms :=
    .cons (.inl rfl) (.cons (.inr (.binary fun _ _ => rfl)) .nil)
  exact ⟨hrun, (hadded cellArms hcovered).runsArms_iff.mpr hrun,
    (hrelisted relistedCellArms hlisted).1.runsArms_iff.mpr hrun⟩

end Matching

end TaggedEval
