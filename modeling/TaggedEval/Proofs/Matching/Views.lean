import TaggedEval.Logic
import TaggedEval.Proofs.Matching.Typed
import TaggedEval.Proofs.Sequence.Traversals

/-!
# Views and typed matches

A truth value can be read with `toBool` or matched on the type `bool`, and a list can be opened with
`view` or matched on the type `list`. The views look at tags and fields themselves, the types
compare with what is declared; they accept the same values. So a connective is the truth function
that its name says whenever its first argument is a truth value, and a match on a list runs the arm
for the cell that `view` opens.
-/

namespace TaggedEval

open Sequence (Effect perform view view_eq_nil_iff view_eq_cons_iff)

namespace Matching

open TypeDeclaration

variable {v : Value} {m : Type → Type} {σ α : Type}

/-- The values of a type with two constructors. -/
theorem exists_constructorOf_pair_iff {typeName first second : String}
    {firstArity secondArity : Nat} :
    (∃ c, (declare typeName [(first, firstArity), (second, secondArity)]).constructorOf v = .ok c) ↔
      (∃ args, v = .tagged 0 args ∧ args.length = firstArity) ∨
        ∃ args, v = .tagged 1 args ∧ args.length = secondArity := by
  rw [exists_constructorOf_iff_exists_make]
  constructor
  · rintro ⟨tag, args, hmake⟩
    obtain ⟨rfl, name, hshape⟩ := make_declare_eq_ok_iff.mp hmake
    rcases hposition : tag.toNat with _ | _ | position
    · rw [hposition] at hshape
      cases hshape
      obtain rfl : tag = 0 := UInt32.toNat_inj.mp hposition
      exact .inl ⟨args, rfl, rfl⟩
    · rw [hposition] at hshape
      cases hshape
      obtain rfl : tag = 1 := UInt32.toNat_inj.mp hposition
      exact .inr ⟨args, rfl, rfl⟩
    · -- No shape is declared at a later position.
      rw [hposition] at hshape
      cases hshape
  · rintro (⟨args, rfl, rfl⟩ | ⟨args, rfl, rfl⟩)
    · exact ⟨0, args, make_declare_eq_ok_iff.mpr ⟨rfl, first, rfl⟩⟩
    · exact ⟨1, args, make_declare_eq_ok_iff.mpr ⟨rfl, second, rfl⟩⟩

/-! ## Truth values -/

theorem exists_toBool_iff : (∃ b, v.toBool = .ok b) ↔ ∃ b, v = .ofBool b :=
  exists_congr fun _ => Value.toBool_eq_ok_iff

theorem exists_constructorOf_bool_iff :
    (∃ c, bool.constructorOf v = .ok c) ↔ ∃ b, v = .ofBool b := by
  refine exists_constructorOf_pair_iff.trans ?_
  simp only [List.length_eq_zero_iff, exists_eq_right, Bool.exists_bool]
  rfl

theorem runTyped_bool_ofBool [Monad m] [LawfulMonad m] [MonadExcept Failure m] (b : Bool)
    (onFalse onTrue : m α) :
    runTyped bool (.ofBool b) [.nullary onFalse, .nullary onTrue] =
      if b then onTrue else onFalse := by
  have hfits : Fits bool ([Arm.nullary onFalse, .nullary onTrue].map Arm.arity) := rfl
  obtain ⟨c, hc⟩ := exists_constructorOf_bool_iff.mpr ⟨b, rfl⟩
  rw [runTyped_of_fits hfits hc]
  cases b <;> rfl

-- Only the numbers of fields of the arms decide how a match is refused, and every connective has
-- two arms without fields.
theorem exists_runTyped_bool_eq_error (h : ¬∃ b, v = .ofBool b) :
    ∃ failure, ∀ onFalse onTrue : Outcome Value,
      runTyped bool v [.nullary onFalse, .nullary onTrue] = .error failure := by
  have hunknown : Fits bool [0, 0] → ∀ c, bool.constructorOf v ≠ .ok c :=
    fun _ c hc => h (exists_constructorOf_bool_iff.mp ⟨c, hc⟩)
  obtain ⟨failure, hrefuses⟩ :=
    exists_refuses [.nullary (m := Outcome) (pure v), .nullary (pure v)] hunknown
  exact ⟨failure, fun _ _ => runTyped_of_refuses (fun _ _ _ => rfl) hrefuses⟩

theorem not_ofBool (b : Bool) : Logic.not (.ofBool b) = .ok (.ofBool !b) := by
  rw [Logic.not, runTyped_bool_ofBool]
  cases b <;> rfl

theorem and_ofBool (b : Bool) (w : Value) :
    Logic.and (.ofBool b) w = .ok (if b then w else .ofBool false) := by
  rw [Logic.and, runTyped_bool_ofBool]
  cases b <;> rfl

theorem or_ofBool (b : Bool) (w : Value) :
    Logic.or (.ofBool b) w = .ok (if b then .ofBool true else w) := by
  rw [Logic.or, runTyped_bool_ofBool]
  cases b <;> rfl

theorem exists_connectives_eq_error (h : ¬∃ b, v = .ofBool b) :
    ∃ failure, Logic.not v = .error failure ∧
      ∀ w, Logic.and v w = .error failure ∧ Logic.or v w = .error failure := by
  obtain ⟨failure, hfails⟩ := exists_runTyped_bool_eq_error h
  exact ⟨failure, hfails _ _, fun w => ⟨hfails _ _, hfails _ _⟩⟩

theorem connectives_succeed_iff :
    ((∃ r, Logic.not v = .ok r) ↔ ∃ b, v = .ofBool b) ∧
    ∀ w, ((∃ r, Logic.and v w = .ok r) ↔ ∃ b, v = .ofBool b) ∧
      ((∃ r, Logic.or v w = .ok r) ↔ ∃ b, v = .ofBool b) := by
  by_cases h : ∃ b, v = .ofBool b
  · obtain ⟨b, rfl⟩ := h
    simp [not_ofBool, and_ofBool, or_ofBool]
  · obtain ⟨failure, hnot, hrest⟩ := exists_connectives_eq_error h
    simp [h, hnot, hrest]

/-! ## Lists -/

theorem exists_view_iff :
    (∃ x, view v = .ok x) ↔ v = .nil ∨ ∃ head tail, v = .cons head tail := by
  simp only [← view_eq_nil_iff, ← view_eq_cons_iff]
  constructor
  · rintro ⟨_ | ⟨head, tail⟩, hview⟩
    · exact .inl hview
    · exact .inr ⟨head, tail, hview⟩
  · rintro (hview | ⟨head, tail, hview⟩)
    · exact ⟨.nil, hview⟩
    · exact ⟨.cons head tail, hview⟩

theorem exists_constructorOf_list_iff :
    (∃ c, list.constructorOf v = .ok c) ↔ v = .nil ∨ ∃ head tail, v = .cons head tail := by
  refine exists_constructorOf_pair_iff.trans (or_congr ?_ ?_)
  · simp only [List.length_eq_zero_iff, exists_eq_right]
    rfl
  · constructor
    · rintro ⟨args, rfl, hlength⟩
      obtain ⟨head, tail, rfl⟩ := List.length_eq_two.mp hlength
      exact ⟨head, tail, rfl⟩
    · rintro ⟨head, tail, rfl⟩
      exact ⟨[head, tail], rfl, rfl⟩

variable (onNil : Effect σ α) (onCell : Value → Value → Effect σ α) (s : σ)

theorem runsArms_list_nil :
    RunsArms (fun _ => runTyped list .nil) [.nullary onNil, .binary onCell] s [(0, [])]
      (perform onNil s).1 (perform onNil s).2 := by
  have hfits : Fits list ([Arm.nullary onNil, .binary onCell].map Arm.arity) := rfl
  obtain ⟨c, hc⟩ := exists_constructorOf_list_iff.mpr (.inl rfl)
  exact (runsArms_of_binds rfl (.nullary onNil) rfl).typed hfits hc

theorem runsArms_list_cons (head tail : Value) :
    RunsArms (fun _ => runTyped list (.cons head tail)) [.nullary onNil, .binary onCell] s
      [(1, [head, tail])] (perform (onCell head tail) s).1 (perform (onCell head tail) s).2 := by
  have hfits : Fits list ([Arm.nullary onNil, .binary onCell].map Arm.arity) := rfl
  obtain ⟨c, hc⟩ := exists_constructorOf_list_iff.mpr (.inr ⟨head, tail, rfl⟩)
  exact (runsArms_of_binds rfl (.binary onCell head tail) rfl).typed hfits hc

theorem exists_runsArms_list_eq_error (h : ¬∃ x, view v = .ok x) :
    ∃ failure, RunsArms (fun _ => runTyped list v) [.nullary onNil, .binary onCell] s []
      (.error failure) s := by
  have hunknown : ¬∃ c, list.constructorOf v = .ok c := by
    rwa [exists_constructorOf_list_iff, ← exists_view_iff]
  obtain ⟨failure, hrefuses⟩ :=
    exists_refuses [.nullary onNil, .binary onCell] fun _ c hc => hunknown ⟨c, hc⟩
  exact ⟨failure, runsArms_of_refuses hrefuses s⟩

/-- The views of a value and the declared types accept the same values. A value is read as a truth
    value exactly when it belongs to `bool`, and exactly when the connectives accept it as their
    first argument; then they are the truth functions, with the second argument returned as it is,
    and otherwise all of them fail in the same way. A value is opened as a list exactly when it
    belongs to `list`, and a match on it runs the arm for what `view` opens. -/
theorem views_agree_with_matches (v : Value) :
    ((∃ b, v.toBool = .ok b) ↔ ∃ c, bool.constructorOf v = .ok c) ∧
    ((∃ b, v.toBool = .ok b) ↔ ∃ r, Logic.not v = .ok r) ∧
    (∀ w, ((∃ b, v.toBool = .ok b) ↔ ∃ r, Logic.and v w = .ok r) ∧
      ((∃ b, v.toBool = .ok b) ↔ ∃ r, Logic.or v w = .ok r)) ∧
    (∀ b, v.toBool = .ok b → Logic.not v = .ok (.ofBool !b) ∧
      ∀ w, Logic.and v w = .ok (if b then w else .ofBool false) ∧
        Logic.or v w = .ok (if b then .ofBool true else w)) ∧
    (∀ mismatch, v.toBool = .error mismatch → ∃ failure, Logic.not v = .error failure ∧
      ∀ w, Logic.and v w = .error failure ∧ Logic.or v w = .error failure) ∧
    ((∃ x, view v = .ok x) ↔ ∃ c, list.constructorOf v = .ok c) ∧
    ∀ (σ α : Type) (onNil : Effect σ α) (onCell : Value → Value → Effect σ α) (s : σ),
      (view v = .ok .nil →
        RunsArms (fun _ => runTyped list v) [.nullary onNil, .binary onCell] s [(0, [])]
          (perform onNil s).1 (perform onNil s).2) ∧
      (∀ head tail, view v = .ok (.cons head tail) →
        RunsArms (fun _ => runTyped list v) [.nullary onNil, .binary onCell] s
          [(1, [head, tail])] (perform (onCell head tail) s).1 (perform (onCell head tail) s).2) ∧
      ∀ mismatch, view v = .error mismatch → ∃ failure,
        RunsArms (fun _ => runTyped list v) [.nullary onNil, .binary onCell] s []
          (.error failure) s := by
  obtain ⟨hnot, hbinary⟩ := connectives_succeed_iff (v := v)
  refine ⟨?_, ?_, fun w => ⟨?_, ?_⟩, ?_, ?_, ?_, fun σ α onNil onCell s => ⟨?_, ?_, ?_⟩⟩
  · rw [exists_toBool_iff, exists_constructorOf_bool_iff]
  · rw [exists_toBool_iff, hnot]
  · rw [exists_toBool_iff, (hbinary w).1]
  · rw [exists_toBool_iff, (hbinary w).2]
  · intro b hb
    obtain rfl := Value.toBool_eq_ok_iff.mp hb
    exact ⟨not_ofBool b, fun w => ⟨and_ofBool b w, or_ofBool b w⟩⟩
  · intro mismatch hmismatch
    apply exists_connectives_eq_error
    rw [← exists_toBool_iff, hmismatch]
    rintro ⟨b, hb⟩
    cases hb
  · rw [exists_view_iff, exists_constructorOf_list_iff]
  · intro hview
    obtain rfl := view_eq_nil_iff.mp hview
    exact runsArms_list_nil onNil onCell s
  · intro head tail hview
    obtain rfl := view_eq_cons_iff.mp hview
    exact runsArms_list_cons onNil onCell s head tail
  · intro mismatch hmismatch
    apply exists_runsArms_list_eq_error
    rw [hmismatch]
    rintro ⟨x, hx⟩
    cases hx

/-- The empty list is also the truth value that is read as false. -/
theorem views_agree_with_matches_nil :
    Logic.not .nil = .ok (.ofBool true) ∧ Logic.or .nil (.text "w") = .ok (.text "w") ∧
    RunsArms (σ := Unit) (fun _ => runTyped list .nil)
      [.nullary (pure Value.nil), .binary fun head _ => pure head] () [(0, [])] (.ok .nil) () := by
  obtain ⟨-, -, -, hconnectives, -, -, hlist⟩ := views_agree_with_matches .nil
  obtain ⟨hnot, hbinary⟩ := hconnectives false rfl
  exact ⟨hnot, (hbinary (.text "w")).2, (hlist Unit Value _ _ ()).1 rfl⟩

end Matching

end TaggedEval
