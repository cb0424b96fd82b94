import TaggedEval.Proofs.Matching.Arms

/-!
# Which arm a match selects

A match selects the arm at the tag of the scrutinee, if that arm binds as many fields as there are.
Otherwise it runs no arm, and how it fails depends on the tag, on the number of fields and on the
numbers of fields that the arms bind, but not on the fields themselves (`Unselected`).
-/

namespace TaggedEval

open Sequence (Effect)

variable {m : Type → Type} {σ α : Type}

theorem Arm.Binds.arity_eq {arm : Arm m α} {args : List Value} {body : m α}
    (h : arm.Binds args body) : arm.arity = args.length := by
  cases h <;> rfl

theorem Arm.apply_of_ne [Monad m] [MonadExcept Failure m] {arm : Arm m α} {args : List Value}
    (h : arm.arity ≠ args.length) (tag : UInt32) :
    arm.apply tag args = throw (.of (.wrongArity ("handler for tag " ++ tag.toNat.repr)
      args.length arm.arity)) := by
  cases arm with
  | nullary run =>
    rcases args with _ | ⟨a, args⟩
    · exact absurd rfl h
    · rfl
  | unary run =>
    rcases args with _ | ⟨a, _ | ⟨b, args⟩⟩
    · rfl
    · exact absurd rfl h
    · rfl
  | binary run =>
    rcases args with _ | ⟨a, _ | ⟨b, _ | ⟨c, args⟩⟩⟩
    · rfl
    · rfl
    · exact absurd rfl h
    · rfl
  | ternary run =>
    rcases args with _ | ⟨a, _ | ⟨b, _ | ⟨c, _ | ⟨d, args⟩⟩⟩⟩
    · rfl
    · rfl
    · rfl
    · exact absurd rfl h
    · rfl
  | fields arity run =>
    rw [apply]
    exact if_neg (Ne.symm h)

namespace Matching

/-- Why a match runs no arm: the scrutinee has no tag, or there is no arm at its tag, or that arm
    binds another number of fields. -/
inductive Unselected (arities : List Nat) : Value → Failure → Prop
  | untagged {v : Value} (h : ∀ tag args, v ≠ .tagged tag args) :
    Unselected arities v (.of (.untagged v.kind))
  | noArm {tag : UInt32} {args : List Value} (h : arities[tag.toNat]? = none) :
    Unselected arities (.tagged tag args) (.of (.noArm tag arities.length))
  | arity {tag : UInt32} {args : List Value} {arity : Nat}
      (harity : arities[tag.toNat]? = some arity) (h : arity ≠ args.length) :
    Unselected arities (.tagged tag args)
      (.of (.wrongArity ("handler for tag " ++ tag.toNat.repr) args.length arity))

variable {v : Value} {failure : Failure}

theorem run_of_unselected [Monad m] [MonadExcept Failure m] {arms : List (Arm m α)}
    (h : Unselected (arms.map Arm.arity) v failure) : run v arms = throw failure := by
  cases h with
  | untagged h =>
    cases v with
    | number x => rfl
    | text s => rfl
    | tagged tag args => exact absurd rfl (h tag args)
  | noArm h =>
    rw [List.getElem?_map, Option.map_eq_none_iff] at h
    simp only [run, h, List.length_map]
  | arity harity h =>
    rw [List.getElem?_map, Option.map_eq_some_iff] at harity
    obtain ⟨arm, harm, rfl⟩ := harity
    simp only [run, harm]
    exact Arm.apply_of_ne h _

theorem runsArms_of_unselected {arms : List (Arm (Effect σ) α)}
    (h : Unselected (arms.map Arm.arity) v failure) (s : σ) :
    RunsArms (fun _ => run v) arms s [] (.error failure) s where
  plain := by
    rw [run_of_unselected h]
    rfl
  noted := by
    rw [← map_arity_recordedArms] at h
    rw [run_of_unselected h]
    rfl

/-- A match that does not fail for one of these reasons has an arm at the tag that binds the
    fields. -/
theorem unselected_or_binds (v : Value) (arms : List (Arm m α)) :
    (∃ failure, Unselected (arms.map Arm.arity) v failure) ∨
      ∃ tag args arm body, v = .tagged tag args ∧ arms[tag.toNat]? = some arm ∧
        arm.Binds args body := by
  cases v with
  | number x => exact .inl ⟨_, .untagged fun _ _ => Value.noConfusion⟩
  | text s => exact .inl ⟨_, .untagged fun _ _ => Value.noConfusion⟩
  | tagged tag args =>
    have harity := List.getElem?_map (f := Arm.arity) (l := arms) (i := tag.toNat)
    cases harm : arms[tag.toNat]? with
    | none =>
      rw [harm, Option.map_none] at harity
      exact .inl ⟨_, .noArm harity⟩
    | some arm =>
      rw [harm, Option.map_some] at harity
      by_cases hfields : arm.arity = args.length
      · obtain ⟨body, hbinds⟩ := Arm.exists_binds hfields
        exact .inr ⟨tag, args, arm, body, rfl, harm, hbinds⟩
      · exact .inl ⟨_, .arity harity hfields⟩

end Matching

end TaggedEval
