import Mathlib.Data.List.Basic
import TaggedEval.Matching
import TaggedEval.Proofs.Sequence.Calls

/-!
# Arms and tables of arms

An arm that is given as many fields as it binds does its work on them (`Arm.Binds`). Which arms a
match runs is made visible as for the callbacks of the list operations: an arm is replaced by one
that notes its position and its fields when it runs (`Arm.recorded`), and `RunsArms` says which notes
a match leaves, besides its result. Whether a table fits a type depends on the numbers of fields that
its arms bind and on nothing else, so a table and its recorded copy pass the same checks.
-/

namespace TaggedEval

open Sequence (Effect perform)

variable {m : Type → Type} {σ α : Type}

namespace Arm

/-- What an arm does on fields, if they are as many as it binds. -/
inductive Binds : Arm m α → List Value → m α → Prop
  | nullary (run : m α) : Binds (.nullary run) [] run
  | unary (run : Value → m α) (a : Value) : Binds (.unary run) [a] (run a)
  | binary (run : Value → Value → m α) (a b : Value) : Binds (.binary run) [a, b] (run a b)
  | ternary (run : Value → Value → Value → m α) (a b c : Value) :
    Binds (.ternary run) [a, b, c] (run a b c)
  | fields (run : List Value → m α) (args : List Value) :
    Binds (.fields args.length run) args (run args)

theorem exists_binds {arm : Arm m α} {args : List Value} (h : arm.arity = args.length) :
    ∃ body, arm.Binds args body := by
  cases arm with
  | nullary run =>
    obtain rfl := List.length_eq_zero_iff.mp h.symm
    exact ⟨run, .nullary run⟩
  | unary run =>
    obtain ⟨a, rfl⟩ := List.length_eq_one_iff.mp h.symm
    exact ⟨run a, .unary run a⟩
  | binary run =>
    obtain ⟨a, b, rfl⟩ := List.length_eq_two.mp h.symm
    exact ⟨run a b, .binary run a b⟩
  | ternary run =>
    obtain ⟨a, b, c, rfl⟩ := List.length_eq_three.mp h.symm
    exact ⟨run a b c, .ternary run a b c⟩
  | fields arity run =>
    cases h
    exact ⟨run args, .fields run args⟩

theorem apply_of_binds [Monad m] [MonadExcept Failure m] {arm : Arm m α} {args : List Value}
    {body : m α} (h : arm.Binds args body) (tag : UInt32) : arm.apply tag args = body := by
  cases h with
  | nullary run => rfl
  | unary run a => rfl
  | binary run a b => rfl
  | ternary run a b c => rfl
  | fields run args =>
    rw [apply]
    exact if_pos rfl

/-! ## Recording -/

/-- `arm`, with its position in the table and the fields it is run on put at the end of a list that
    is kept beside the state. -/
def recorded (position : Nat) :
    Arm (Effect σ) α → Arm (Effect (σ × List (Nat × List Value))) α
  | nullary run => nullary (Sequence.recorded (fun _ => run) (position, []))
  | unary run => unary fun a => Sequence.recorded (fun _ => run a) (position, [a])
  | binary run => binary fun a b => Sequence.recorded (fun _ => run a b) (position, [a, b])
  | ternary run =>
    ternary fun a b c => Sequence.recorded (fun _ => run a b c) (position, [a, b, c])
  | fields arity run =>
    fields arity fun args => Sequence.recorded (fun _ => run args) (position, args)

@[simp] theorem arity_recorded (position : Nat) (arm : Arm (Effect σ) α) :
    (arm.recorded position).arity = arm.arity := by
  cases arm <;> rfl

theorem Binds.recorded {arm : Arm (Effect σ) α} {args : List Value} {body : Effect σ α}
    (h : arm.Binds args body) (position : Nat) :
    (arm.recorded position).Binds args (Sequence.recorded (fun _ => body) (position, args)) := by
  cases h with
  | nullary run => exact .nullary _
  | unary run a => exact .unary _ a
  | binary run a b => exact .binary _ a b
  | ternary run a b c => exact .ternary _ a b c
  | fields run args => exact .fields _ args

end Arm

namespace Matching

/-- The table with each arm recorded under its position. -/
def recordedArms (arms : List (Arm (Effect σ) α)) :
    List (Arm (Effect (σ × List (Nat × List Value))) α) :=
  arms.mapIdx Arm.recorded

theorem map_arity_recordedArms (arms : List (Arm (Effect σ) α)) :
    (recordedArms arms).map Arm.arity = arms.map Arm.arity := by
  apply List.ext_getElem?
  intro position
  simp only [recordedArms, List.getElem?_map, List.getElem?_mapIdx, Option.map_map]
  congr 1
  funext arm
  exact Arm.arity_recorded position arm

/-- `op`, from the state `s`, runs the arms that are noted in `log`, each on the fields that are
    noted with it, in that order and no others, and ends with `outcome` in the state `s'`. -/
structure RunsArms (op : (σ : Type) → List (Arm (Effect σ) α) → Effect σ α)
    (arms : List (Arm (Effect σ) α)) (s : σ) (log : List (Nat × List Value))
    (outcome : Outcome α) (s' : σ) : Prop where
  plain : perform (op σ arms) s = (outcome, s')
  noted : perform (op _ (recordedArms arms)) (s, []) = (outcome, s', log)

/-- A match on a tag with an arm for its fields runs that arm, once, and ends as the arm does. -/
theorem run_of_binds [Monad m] [MonadExcept Failure m] {arms : List (Arm m α)} {tag : UInt32}
    {args : List Value} {arm : Arm m α} {body : m α} (harm : arms[tag.toNat]? = some arm)
    (hbinds : arm.Binds args body) : run (.tagged tag args) arms = body := by
  simp only [run, harm]
  exact Arm.apply_of_binds hbinds tag

theorem runsArms_of_binds {arms : List (Arm (Effect σ) α)} {tag : UInt32} {args : List Value}
    {arm : Arm (Effect σ) α} {body : Effect σ α} (harm : arms[tag.toNat]? = some arm)
    (hbinds : arm.Binds args body) {s s' : σ} {outcome : Outcome α}
    (h : perform body s = (outcome, s')) :
    RunsArms (fun _ => run (.tagged tag args)) arms s [(tag.toNat, args)] outcome s' where
  plain := by rw [run_of_binds harm hbinds, h]
  noted := by
    have hrecorded : (recordedArms arms)[tag.toNat]? = some (arm.recorded tag.toNat) := by
      rw [recordedArms, List.getElem?_mapIdx, harm, Option.map_some]
    rw [run_of_binds hrecorded (hbinds.recorded tag.toNat)]
    exact Sequence.perform_recorded h []

/-! ## Tables that fit a type -/

/-- There is one arm for each constructor, and it binds the declared number of fields. -/
def Fits (ty : TypeDeclaration) (arities : List Nat) : Prop :=
  arities = ty.constructors.map Constructor.arity

/-- Why a table does not fit a type. The number of arms is looked at first, and then the arms in
    order up to the first one that binds another number of fields than its constructor has. -/
inductive Misfit (ty : TypeDeclaration) (arities : List Nat) : Failure → Prop
  | count (h : arities.length ≠ ty.size) :
    Misfit ty arities (.of (.wrongArmCount ty.name ty.size arities.length
      ((ty.constructors.drop arities.length).map fun c =>
        c.name ++ " (tag " ++ c.tag.toNat.repr ++ ")")))
  | arity {position arity : Nat} {c : Constructor} (count : arities.length = ty.size)
      (agree : ∀ i < position, arities[i]? = ty.constructors[i]?.map Constructor.arity)
      (hc : ty.constructors[position]? = some c) (harity : arities[position]? = some arity)
      (h : c.arity ≠ arity) :
    Misfit ty arities (.of (.wrongArity c.name c.arity arity))

end Matching

end TaggedEval
