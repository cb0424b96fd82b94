import TaggedEval.Proofs.Matching.Arms
import TaggedEval.Proofs.TypeDeclaration.Checking

/-!
# Typed matches

A typed match refuses a table that does not fit, a scrutinee without a tag and a scrutinee that the
type does not know, in this order and before any arm runs (`Refuses`). Whatever it does not refuse
has an arm at its tag that binds its fields, so the failures of the untyped match cannot occur, and
the two matches are the same.
-/

namespace TaggedEval

open Sequence (Effect perform)

namespace Matching

/-! ## Checking a table -/

section

variable {m : Type → Type} {α : Type} {ty : TypeDeclaration} {arms : List (Arm m α)}
  {failure : Failure}

theorem Fits.length_eq {arities : List Nat} (h : Fits ty arities) : arities.length = ty.size := by
  rw [h, List.length_map, TypeDeclaration.size]

theorem find?_arity_eq_none_iff {cs : List Constructor} (hlength : arms.length = cs.length) :
    ((cs.zip arms).find? fun (c, arm) => c.arity != arm.arity) = none ↔
      arms.map Arm.arity = cs.map Constructor.arity := by
  induction cs generalizing arms with
  | nil =>
    obtain rfl := List.length_eq_zero_iff.mp hlength
    simp
  | cons c cs ih =>
    cases arms with
    | nil => cases hlength
    | cons arm arms =>
      rw [List.length_cons, List.length_cons, Nat.add_right_cancel_iff] at hlength
      rw [List.zip_cons_cons, List.find?_cons, List.map_cons, List.map_cons, List.cons.injEq,
        ← ih hlength]
      by_cases harity : c.arity = arm.arity
      · simp [harity]
      · simp [bne_iff_ne.mpr harity, Ne.symm harity]

theorem find?_arity_eq_some_iff {cs : List Constructor} (hlength : arms.length = cs.length)
    {c : Constructor} {arm : Arm m α} :
    ((cs.zip arms).find? fun (c, arm) => c.arity != arm.arity) = some (c, arm) ↔
      c.arity ≠ arm.arity ∧ ∃ position : Nat, cs[position]? = some c ∧
        arms[position]? = some arm ∧
        ∀ i < position, (arms.map Arm.arity)[i]? = cs[i]?.map Constructor.arity := by
  -- Up to the position in question both lists have an element at every index.
  have hagree (i : Nat) (hi : i < (cs.zip arms).length) :
      (!((cs.zip arms)[i].1.arity != (cs.zip arms)[i].2.arity)) = true ↔
        (arms.map Arm.arity)[i]? = cs[i]?.map Constructor.arity := by
    rw [List.length_zip] at hi
    have hcs : i < cs.length := by omega
    have harms : i < arms.length := by omega
    rw [List.getElem_zip, List.getElem?_map, List.getElem?_eq_getElem hcs,
      List.getElem?_eq_getElem harms, Bool.not_eq_true', bne_eq_false_iff_eq, Option.map_some,
      Option.map_some, Option.some_inj]
    exact eq_comm
  rw [List.find?_eq_some_iff_getElem, bne_iff_ne]
  apply and_congr_right'
  constructor
  · rintro ⟨position, hposition, hpair, hbefore⟩
    obtain ⟨hc, harm⟩ :=
      List.getElem?_zip_eq_some.mp (List.getElem?_eq_some_iff.mpr ⟨hposition, hpair⟩)
    exact ⟨position, hc, harm, fun i hi => (hagree i _).mp (hbefore i hi)⟩
  · rintro ⟨position, hc, harm, hbefore⟩
    obtain ⟨hposition, hpair⟩ :=
      List.getElem?_eq_some_iff.mp (List.getElem?_zip_eq_some (z := (c, arm)).mpr ⟨hc, harm⟩)
    exact ⟨position, hposition, hpair, fun i hi => (hagree i _).mpr (hbefore i hi)⟩

theorem checkArms_eq_ok_iff : checkArms ty arms = .ok () ↔ Fits ty (arms.map Arm.arity) := by
  unfold checkArms
  by_cases hcount : arms.length = ty.size
  · rw [if_neg (not_not.mpr hcount), Fits, ← find?_arity_eq_none_iff hcount]
    split <;> simp [*]
  · rw [if_pos hcount]
    simp only [reduceCtorEq, false_iff]
    intro hfits
    apply hcount
    rw [← hfits.length_eq, List.length_map]

theorem checkArms_eq_error_iff :
    checkArms ty arms = .error failure ↔ Misfit ty (arms.map Arm.arity) failure := by
  have hlength : (arms.map Arm.arity).length = arms.length := List.length_map _
  unfold checkArms
  by_cases hcount : arms.length = ty.size
  · rw [if_neg (not_not.mpr hcount)]
    constructor
    · intro h
      split at h
      · rename_i c arm hfind
        cases h
        obtain ⟨harity, position, hc, harm, hbefore⟩ := (find?_arity_eq_some_iff hcount).mp hfind
        refine .arity (hlength.trans hcount) hbefore hc ?_ harity
        rw [List.getElem?_map, harm, Option.map_some]
      · cases h
    · rintro (hcount' | ⟨_, hbefore, hc, harity, hne⟩)
      · exact absurd (hlength.trans hcount) hcount'
      · rw [List.getElem?_map, Option.map_eq_some_iff] at harity
        obtain ⟨arm, harm, rfl⟩ := harity
        rw [(find?_arity_eq_some_iff hcount).mpr ⟨hne, _, hc, harm, hbefore⟩]
  · rw [if_pos hcount]
    constructor
    · intro h
      cases h
      rw [← hlength] at hcount ⊢
      exact .count hcount
    · rintro (_ | ⟨hcount', _⟩)
      · rw [hlength]
        rfl
      · exact absurd (hlength.symm.trans hcount') hcount

theorem exists_misfit (h : ¬Fits ty (arms.map Arm.arity)) :
    ∃ failure, Misfit ty (arms.map Arm.arity) failure := by
  cases hcheck : checkArms ty arms with
  | ok => exact absurd (checkArms_eq_ok_iff.mp hcheck) h
  | error failure => exact ⟨failure, checkArms_eq_error_iff.mp hcheck⟩

end

/-! ## Refusals -/

/-- Why a typed match runs no arm, in the order in which it looks for a reason: the table, whatever
    the scrutinee is, then a scrutinee without a tag, then a tag or a number of fields that the type
    does not have. -/
inductive Refuses (ty : TypeDeclaration) (v : Value) (arities : List Nat) : Failure → Prop
  | table {failure : Failure} (misfit : Misfit ty arities failure) : Refuses ty v arities failure
  | untagged (fits : Fits ty arities) (h : ∀ tag args, v ≠ .tagged tag args) :
    Refuses ty v arities (.of (.untagged v.kind))
  | scrutinee {tag : UInt32} {args : List Value} {failure : Failure} (fits : Fits ty arities)
      (hv : v = .tagged tag args) (h : ty.constructorOf v = .error failure) :
    Refuses ty v arities failure

variable {m : Type → Type} {σ α : Type} {ty : TypeDeclaration} {v : Value} {failure : Failure}

theorem Refuses.cause_ne_wrongKind {arities : List Nat} (h : Refuses ty v arities failure)
    (expected got : String) : failure.cause ≠ .wrongKind expected got := by
  cases h with
  | table misfit => cases misfit <;> exact Cause.noConfusion
  | untagged fits h => exact Cause.noConfusion
  | scrutinee fits hv h =>
    rw [hv] at h
    exact TypeDeclaration.cause_ne_wrongKind_of_constructorOf h expected got

/-- A table that does not fit, or a value that does not belong to the type, is refused. -/
theorem exists_refuses (arms : List (Arm m α))
    (h : Fits ty (arms.map Arm.arity) → ∀ c, ty.constructorOf v ≠ .ok c) :
    ∃ failure, Refuses ty v (arms.map Arm.arity) failure := by
  by_cases hfits : Fits ty (arms.map Arm.arity)
  · cases hv : ty.constructorOf v with
    | ok c => exact absurd hv (h hfits c)
    | error failure =>
      cases v with
      | number x => exact ⟨_, .untagged hfits fun _ _ => Value.noConfusion⟩
      | text s => exact ⟨_, .untagged hfits fun _ _ => Value.noConfusion⟩
      | tagged tag args => exact ⟨failure, .scrutinee hfits rfl hv⟩
  · obtain ⟨failure, hmisfit⟩ := exists_misfit hfits
    exact ⟨failure, .table hmisfit⟩

/-! ## Typed and untyped matches -/

theorem runTyped_of_fits [Monad m] [LawfulMonad m] [MonadExcept Failure m]
    {arms : List (Arm m α)} {c : Constructor} (hfits : Fits ty (arms.map Arm.arity))
    (hc : ty.constructorOf v = .ok c) : runTyped ty v arms = run v arms := by
  obtain ⟨tag, args, rfl⟩ := TypeDeclaration.exists_tagged_of_constructorOf hc
  simp only [runTyped, checkArms_eq_ok_iff.mpr hfits, hc, MonadExcept.ofExcept, pure_bind]

-- A failure must end a computation; of `m` nothing else is known.
theorem runTyped_of_refuses [Monad m] [LawfulMonad m] [MonadExcept Failure m]
    (hthrow : ∀ (β : Type) (failure : Failure) (next : β → m α),
      (throw failure : m β) >>= next = throw failure)
    {arms : List (Arm m α)} (h : Refuses ty v (arms.map Arm.arity) failure) :
    runTyped ty v arms = throw failure := by
  unfold runTyped
  cases h with
  | table misfit =>
    rw [checkArms_eq_error_iff.mpr misfit]
    exact hthrow Unit failure _
  | untagged fits h =>
    cases v with
    | number x =>
      simp only [checkArms_eq_ok_iff.mpr fits, MonadExcept.ofExcept, pure_bind, Matching.untagged]
    | text s =>
      simp only [checkArms_eq_ok_iff.mpr fits, MonadExcept.ofExcept, pure_bind, Matching.untagged]
    | tagged tag args => exact absurd rfl (h tag args)
  | scrutinee fits hv h =>
    subst hv
    simp only [checkArms_eq_ok_iff.mpr fits, h, MonadExcept.ofExcept, pure_bind]
    exact hthrow Constructor failure _

theorem perform_runTyped_of_refuses {arms : List (Arm (Effect σ) α)}
    (h : Refuses ty v (arms.map Arm.arity) failure) (s : σ) :
    perform (runTyped ty v arms) s = (.error failure, s) := by
  rw [runTyped_of_refuses (fun _ _ _ => rfl) h]
  rfl

theorem runsArms_of_refuses {arms : List (Arm (Effect σ) α)}
    (h : Refuses ty v (arms.map Arm.arity) failure) (s : σ) :
    RunsArms (fun _ => runTyped ty v) arms s [] (.error failure) s where
  plain := perform_runTyped_of_refuses h s
  noted := by
    rw [← map_arity_recordedArms] at h
    exact perform_runTyped_of_refuses h (s, [])

/-- A table that fits has an arm at the tag of each value of the type, and it binds the fields. -/
theorem exists_arm_of_fits {arms : List (Arm m α)} {tag : UInt32} {args : List Value}
    {c : Constructor} (hfits : Fits ty (arms.map Arm.arity))
    (hc : ty.constructorOf (.tagged tag args) = .ok c) :
    ∃ arm body, arms[tag.toNat]? = some arm ∧ arm.Binds args body := by
  obtain ⟨hdeclared, harity⟩ := TypeDeclaration.constructorOf_tagged_eq_ok_iff.mp hc
  have hposition : (arms.map Arm.arity)[tag.toNat]? = some c.arity := by
    rw [hfits, List.getElem?_map, ← TypeDeclaration.constructor?, hdeclared, Option.map_some]
  rw [List.getElem?_map, Option.map_eq_some_iff] at hposition
  obtain ⟨arm, harm, hequal⟩ := hposition
  obtain ⟨body, hbinds⟩ := Arm.exists_binds (hequal.trans harity)
  exact ⟨arm, body, harm, hbinds⟩

theorem RunsArms.typed {arms : List (Arm (Effect σ) α)} {c : Constructor}
    (hfits : Fits ty (arms.map Arm.arity)) (hc : ty.constructorOf v = .ok c) {s s' : σ}
    {log : List (Nat × List Value)} {outcome : Outcome α}
    (h : RunsArms (fun _ => run v) arms s log outcome s') :
    RunsArms (fun _ => runTyped ty v) arms s log outcome s' where
  plain := by
    rw [runTyped_of_fits hfits hc]
    exact h.plain
  noted := by
    rw [← map_arity_recordedArms] at hfits
    rw [runTyped_of_fits hfits hc]
    exact h.noted

/-- On a value of the type, a table that fits runs the arm at its tag, once and on its fields,
    whether the match is typed or not. -/
theorem exists_runsArms_of_fits {arms : List (Arm (Effect σ) α)} {tag : UInt32} {args : List Value}
    {c : Constructor} (hfits : Fits ty (arms.map Arm.arity))
    (hc : ty.constructorOf (.tagged tag args) = .ok c) :
    ∃ arm body, arms[tag.toNat]? = some arm ∧ arm.Binds args body ∧
      ∀ s, ∃ outcome s', perform body s = (outcome, s') ∧
        RunsArms (fun _ => run (.tagged tag args)) arms s [(tag.toNat, args)] outcome s' ∧
        RunsArms (fun _ => runTyped ty (.tagged tag args)) arms s [(tag.toNat, args)] outcome
          s' := by
  obtain ⟨arm, body, harm, hbinds⟩ := exists_arm_of_fits hfits hc
  refine ⟨arm, body, harm, hbinds, fun s => ?_⟩
  have hruns := runsArms_of_binds harm hbinds (s := s) rfl
  exact ⟨_, _, rfl, hruns, hruns.typed hfits hc⟩

/-- A typed match does what the untyped match does whenever the table fits the type and the
    scrutinee belongs to it: both run the arm at the tag of the scrutinee, once and on its fields,
    and end as that arm does. In every other case the typed match runs no arm and fails, for the
    first reason in the order of `Refuses`; that is never a mismatch of kinds. -/
theorem runTyped_refines_run (ty : TypeDeclaration) (v : Value) (arms : List (Arm (Effect σ) α)) :
    (∀ c, Fits ty (arms.map Arm.arity) → ty.constructorOf v = .ok c →
      runTyped ty v arms = run v arms ∧
      ∃ tag args, v = .tagged tag args ∧
        ∃ arm body, arms[tag.toNat]? = some arm ∧ arm.Binds args body ∧
          ∀ s, ∃ outcome s', perform body s = (outcome, s') ∧
            RunsArms (fun _ => run v) arms s [(tag.toNat, args)] outcome s' ∧
            RunsArms (fun _ => runTyped ty v) arms s [(tag.toNat, args)] outcome s') ∧
    ((Fits ty (arms.map Arm.arity) → ∀ c, ty.constructorOf v ≠ .ok c) →
      ∃ failure, Refuses ty v (arms.map Arm.arity) failure ∧
        (∀ expected got, failure.cause ≠ .wrongKind expected got) ∧
        ∀ s, RunsArms (fun _ => runTyped ty v) arms s [] (.error failure) s) := by
  constructor
  · intro c hfits hc
    obtain ⟨tag, args, rfl⟩ := TypeDeclaration.exists_tagged_of_constructorOf hc
    exact ⟨runTyped_of_fits hfits hc, tag, args, rfl, exists_runsArms_of_fits hfits hc⟩
  · intro h
    obtain ⟨failure, hrefuses⟩ := exists_refuses arms h
    exact ⟨failure, hrefuses, hrefuses.cause_ne_wrongKind, runsArms_of_refuses hrefuses⟩

end Matching

end TaggedEval
