import TaggedEval.Proofs.Matching.Selection
import TaggedEval.Proofs.TypeDeclaration.Checking
import TaggedEval.Proofs.Value.Laws

/-!
# What equal values have in common

Equal values need not be identical: zeros of both signs are equal, at any depth. Still, whatever can
be asked of a value has equal answers on equal values, or the same failure (`ObservedAlike`). Lists
are taken apart along both chains of cells at once (`SameSpine`).
-/

namespace TaggedEval

open Sequence Matching

/-! ## Outcomes -/

/-- Both outcomes are equal results, or both are the same failure. -/
inductive Alike {α : Type} [BEq α] : Outcome α → Outcome α → Prop
  | ok {x y : α} (h : (x == y) = true) : Alike (.ok x) (.ok y)
  | error (failure : Failure) : Alike (.error failure) (.error failure)

theorem Alike.of_eq {α : Type} [BEq α] [ReflBEq α] {x y : Outcome α} (h : x = y) : Alike x y := by
  subst h
  cases x with
  | ok a => exact .ok BEq.rfl
  | error failure => exact .error failure

theorem Alike.errors {α : Type} [BEq α] {failure failure' : Failure} (h : failure = failure') :
    Alike (.error failure : Outcome α) (.error failure') :=
  h ▸ .error failure

theorem Alike.bind {α β : Type} [BEq α] [BEq β] {x y : Outcome α} {f g : α → Outcome β}
    (h : Alike x y) (hnext : ∀ a b, (a == b) = true → Alike (f a) (g b)) :
    Alike (x >>= f) (y >>= g) := by
  cases h with
  | ok h => exact hnext _ _ h
  | error failure => exact .error failure

/-! ## One value -/

namespace Value

variable {v w : Value}

theorem Same.kind_eq (h : Same v w) : v.kind = w.kind := by
  cases h with
  | number h => rfl
  | text s => rfl
  | tagged tag length fields => rw [kind, kind, length]

theorem Same.mismatch_eq (h : Same v w) (expected : String) :
    v.mismatch expected = w.mismatch expected := by
  rw [mismatch, mismatch, h.kind_eq]

theorem Same.toNumber_alike (h : Same v w) : Alike v.toNumber w.toNumber := by
  have hmismatch := h.mismatch_eq "Num"
  cases h with
  | number h => exact .ok (beq_iff_sameNumber.mpr h)
  | text s => exact .errors hmismatch
  | tagged tag length fields => exact .errors hmismatch

theorem Same.toText_alike (h : Same v w) : Alike v.toText w.toText := by
  have hmismatch := h.mismatch_eq "Text"
  cases h with
  | number h => exact .errors hmismatch
  | text s => exact .of_eq rfl
  | tagged tag length fields => exact .errors hmismatch

theorem Same.toBool_alike (h : Same v w) : Alike v.toBool w.toBool := by
  have hmismatch := h.mismatch_eq "Bool"
  cases h with
  | number h => exact .errors hmismatch
  | text s => exact .errors hmismatch
  | @tagged tag xs ys length fields =>
    rcases xs with _ | ⟨x, xs⟩ <;> rcases ys with _ | ⟨y, ys⟩
    · exact .of_eq rfl
    · cases length
    · cases length
    · rw [toBool, toBool, hmismatch]
      · exact .error _
      all_goals nofun

theorem Same.constructorOf_eq (h : Same v w) (ty : TypeDeclaration) :
    ty.constructorOf v = ty.constructorOf w := by
  have hmismatch := h.mismatch_eq ty.name
  cases h with
  | number h => exact congrArg Except.error hmismatch
  | text s => rfl
  | tagged tag length fields => simp only [TypeDeclaration.constructorOf, length]

/-! ## One cell -/

theorem same_nil : Same nil nil :=
  .tagged 0 rfl nofun

theorem same_cons_iff {head tail head' tail' : Value} :
    Same (.cons head tail) (.cons head' tail') ↔ Same head head' ∧ Same tail tail' := by
  rw [cons, cons, same_tagged_iff_forall₂]
  simp

theorem Same.eq_nil_iff (h : Same v w) : v = .nil ↔ w = .nil := by
  have hforward {v w : Value} (h : Same v w) (hv : v = .nil) : w = .nil := by
    subst hv
    cases h with
    | tagged tag length fields =>
      rw [List.length_eq_zero_iff.mp length.symm]
      rfl
  exact ⟨hforward h, hforward h.symm⟩

theorem Same.exists_cons {head tail : Value} (h : Same (.cons head tail) w) :
    ∃ head' tail', w = .cons head' tail' ∧ Same head head' ∧ Same tail tail' := by
  obtain _ | _ | ⟨_, hlength, hfields⟩ := h
  obtain ⟨head', tail', rfl⟩ := List.length_eq_two.mp hlength.symm
  exact ⟨head', tail', rfl, hfields (head, head') (by simp), hfields (tail, tail') (by simp)⟩

theorem Same.isCell_eq (h : Same v w) : isCell v = isCell w := by
  have hforward {v w : Value} (h : Same v w) (hv : isCell v = true) : isCell w = true := by
    obtain ⟨head, tail, rfl⟩ := eq_cons_of_isCell hv
    obtain ⟨head', tail', rfl, -, -⟩ := h.exists_cons
    rfl
  exact Bool.eq_iff_iff.mpr ⟨hforward h, hforward h.symm⟩

theorem Same.view_alike (h : Same v w) : Alike (view v) (view w) := by
  cases hcell : isCell v with
  | true =>
    obtain ⟨head, tail, rfl⟩ := eq_cons_of_isCell hcell
    obtain ⟨head', tail', rfl, hhead, htail⟩ := h.exists_cons
    exact .ok (Bool.and_eq_true_iff.mpr ⟨same_iff_beq.mp hhead, same_iff_beq.mp htail⟩)
  | false =>
    by_cases hnil : v = .nil
    · rw [hnil, h.eq_nil_iff.mp hnil]
      exact .ok rfl
    · rw [view_of_not_list hcell hnil,
        view_of_not_list (h.isCell_eq ▸ hcell) fun hnil' => hnil (h.eq_nil_iff.mpr hnil')]
      exact .errors (h.mismatch_eq "List")

/-- What is done with an opened list has to be alike for `nil`, and for two cells with equal heads
    and equal tails. -/
theorem Same.bind_view_alike {α : Type} [BEq α] {f : View → Outcome α} (h : Same v w)
    (hnil : Alike (f .nil) (f .nil))
    (hcons : ∀ head tail head' tail', (head == head') = true → (tail == tail') = true →
      Alike (f (.cons head tail)) (f (.cons head' tail'))) :
    Alike (view v >>= f) (view w >>= f) := by
  refine h.view_alike.bind fun x y hxy => ?_
  cases x with
  | nil =>
    cases y with
    | nil => exact hnil
    | cons head' tail' => cases hxy
  | cons head tail =>
    cases y with
    | nil => cases hxy
    | cons head' tail' =>
      obtain ⟨hhead, htail⟩ := Bool.and_eq_true_iff.mp hxy
      exact hcons head tail head' tail' hhead htail

theorem Same.head_alike (h : Same v w) : Alike (head v) (head w) :=
  h.bind_view_alike (.error _) fun _ _ _ _ hhead _ => .ok hhead

theorem Same.tail_alike (h : Same v w) : Alike (tail v) (tail w) :=
  h.bind_view_alike (.error _) fun _ _ _ _ _ htail => .ok htail

theorem same_ofBool (b : Bool) : Same (ofBool b) (ofBool b) := by
  cases b <;> exact .tagged _ rfl nofun

theorem Same.isEmpty_alike (h : Same v w) : Alike (isEmpty v) (isEmpty w) :=
  h.bind_view_alike (.ok (same_iff_beq.mp (same_ofBool true)))
    fun _ _ _ _ _ _ => .ok (same_iff_beq.mp (same_ofBool false))

/-- Opened lists are equal exactly when the lists are. -/
theorem beq_view {x y : View} (hx : view v = .ok x) (hy : view w = .ok y) :
    (x == y) = (v == w) := by
  rcases eq_of_view hx with ⟨rfl, rfl⟩ | ⟨head, tail, rfl, rfl⟩ <;>
    rcases eq_of_view hy with ⟨rfl, rfl⟩ | ⟨head', tail', rfl, rfl⟩
  · exact (same_iff_beq.mp same_nil).symm
  · rw [beq_eq_equal]
    rfl
  · rw [beq_eq_equal]
    rfl
  · show (head == head' && tail == tail') = _
    rw [Bool.eq_iff_iff, Bool.and_eq_true, ← same_iff_beq, ← same_iff_beq, ← same_iff_beq,
      same_cons_iff]

/-! ## All cells -/

/-- Two values are lists of equal elements, or both stop being lists, with the same failure. -/
inductive SameSpine : Value → Value → Prop
  | list {vs ws : List Value} (elements : List.Forall₂ Same vs ws) :
    SameSpine (ofList vs) (ofList ws)
  | other (heads heads' : List Value) {stop stop' : Value} (hcell : isCell stop = false)
      (hnil : stop ≠ .nil) (hcell' : isCell stop' = false) (hnil' : stop' ≠ .nil)
      (mismatch : stop.mismatch "List" = stop'.mismatch "List") :
    SameSpine (chain heads stop) (chain heads' stop')

theorem Same.spine (h : Same v w) : SameSpine v w := by
  induction v using Sequence.induct generalizing w with
  | stop v hcell =>
    by_cases hnil : v = .nil
    · rw [hnil, h.eq_nil_iff.mp hnil]
      exact .list .nil
    · exact .other [] [] hcell hnil (h.isCell_eq ▸ hcell)
        (fun hnil' => hnil (h.eq_nil_iff.mpr hnil')) (h.mismatch_eq "List")
  | cell head tail ih =>
    obtain ⟨head', tail', rfl, hhead, htail⟩ := h.exists_cons
    cases ih htail with
    | list elements => exact .list (.cons hhead elements)
    | other heads heads' hcell hnil hcell' hnil' mismatch =>
      exact .other (head :: heads) (head' :: heads') hcell hnil hcell' hnil' mismatch

theorem same_ofList {vs ws : List Value} (h : List.Forall₂ Same vs ws) :
    Same (ofList vs) (ofList ws) := by
  induction h with
  | nil => exact same_nil
  | cons hhead _ ih => exact same_cons_iff.mpr ⟨hhead, ih⟩

theorem beq_of_forall₂ {vs ws : List Value} (h : List.Forall₂ Same vs ws) : (vs == ws) = true := by
  induction h with
  | nil => rfl
  | cons hhead _ ih => exact Bool.and_eq_true_iff.mpr ⟨same_iff_beq.mp hhead, ih⟩

theorem Same.toList_alike (h : Same v w) : Alike (toList v) (toList w) := by
  cases h.spine with
  | list elements =>
    rw [toList_ofList, toList_ofList]
    exact .ok (beq_of_forall₂ elements)
  | other heads heads' hcell hnil hcell' hnil' mismatch =>
    rw [toList_of_not_list heads hcell hnil, toList_of_not_list heads' hcell' hnil']
    exact .errors mismatch

theorem Same.length_alike (h : Same v w) : Alike (length v) (length w) := by
  cases h.spine with
  | list elements =>
    rw [length_ofList, length_ofList]
    exact .of_eq (congrArg Except.ok elements.length_eq)
  | other heads heads' hcell hnil hcell' hnil' mismatch =>
    rw [length_of_not_list heads hcell hnil, length_of_not_list heads' hcell' hnil']
    exact .errors mismatch

theorem Same.reverse_alike (h : Same v w) : Alike (reverse v) (reverse w) := by
  cases h.spine with
  | list elements =>
    rw [reverse_ofList, reverse_ofList]
    exact .ok (same_iff_beq.mp (same_ofList (List.rel_reverse elements)))
  | other heads heads' hcell hnil hcell' hnil' mismatch =>
    rw [reverse_of_not_list heads hcell hnil, reverse_of_not_list heads' hcell' hnil']
    exact .errors mismatch

theorem Same.last_alike (h : Same v w) : Alike (last v) (last w) := by
  by_cases hnil : v = .nil
  · rw [hnil, h.eq_nil_iff.mp hnil]
    exact .error _
  · rw [last_eq_head_reverse hnil, last_eq_head_reverse (mt h.eq_nil_iff.mpr hnil)]
    exact h.reverse_alike.bind fun x y hxy => (same_iff_beq.mpr hxy).head_alike

end Value

/-! ## Matching -/

namespace Matching

open Value

variable {σ α : Type} {v w : Value}

/-- Two matches select the same arm and give it equal fields, or they run no arm and fail in the
    same way. -/
inductive SelectAlike (arms : List (Arm (Effect σ) α)) (v w : Value) : Prop
  | arm (position : Nat) {args args' : List Value} (fields : (args == args') = true)
      (left : ∀ s, ∃ outcome s', RunsArms (fun _ => run v) arms s [(position, args)] outcome s')
      (right : ∀ s, ∃ outcome s', RunsArms (fun _ => run w) arms s [(position, args')] outcome s')
  | none (failure : Failure)
      (left : ∀ s, RunsArms (fun _ => run v) arms s [] (.error failure) s)
      (right : ∀ s, RunsArms (fun _ => run w) arms s [] (.error failure) s)

theorem Unselected.same {arities : List Nat} {failure : Failure}
    (h : Unselected arities v failure) (hsame : Same v w) : Unselected arities w failure := by
  cases h with
  | untagged h =>
    rw [hsame.kind_eq]
    cases hsame with
    | number _ => exact .untagged nofun
    | text _ => exact .untagged nofun
    | tagged tag _ _ => exact absurd rfl (h tag _)
  | noArm h =>
    cases hsame with
    | tagged tag _ _ => exact .noArm h
  | arity harity h =>
    cases hsame with
    | tagged tag hlength _ =>
      rw [hlength] at h ⊢
      exact .arity harity h

theorem selectAlike_of_same (h : Same v w) (arms : List (Arm (Effect σ) α)) :
    SelectAlike arms v w := by
  rcases unselected_or_binds v arms with
    ⟨failure, hnone⟩ | ⟨tag, args, arm, body, rfl, harm, hbinds⟩
  · exact .none failure (runsArms_of_unselected hnone) (runsArms_of_unselected (hnone.same h))
  · cases h with
    | @tagged _ _ args' hlength hfields =>
      have hequal : List.Forall₂ Same args args' :=
        (same_tagged_iff_forall₂.mp (.tagged tag hlength hfields)).2
      obtain ⟨body', hbinds'⟩ := Arm.exists_binds (hbinds.arity_eq.trans hlength)
      exact .arm tag.toNat (beq_of_forall₂ hequal)
        (fun s => ⟨_, _, runsArms_of_binds harm hbinds rfl⟩)
        (fun s => ⟨_, _, runsArms_of_binds harm hbinds' rfl⟩)

end Matching

/-! ## All of them -/

open Value

/-- Whatever is asked of the two values has equal answers, or the same failure. -/
structure ObservedAlike (v w : Value) : Prop where
  kind : v.kind = w.kind
  number : Alike v.toNumber w.toNumber
  text : Alike v.toText w.toText
  bool : Alike v.toBool w.toBool
  view : Alike (Sequence.view v) (Sequence.view w)
  elements : Alike (toList v) (toList w)
  head : Alike (Sequence.head v) (Sequence.head w)
  last : Alike (Sequence.last v) (Sequence.last w)
  tail : Alike (Sequence.tail v) (Sequence.tail w)
  length : Alike (Sequence.length v) (Sequence.length w)
  empty : Alike (isEmpty v) (isEmpty w)
  reversed : Alike (reverse v) (reverse w)
  checked : ∀ ty : TypeDeclaration, ty.constructorOf v = ty.constructorOf w
  matched : ∀ {σ α : Type} (arms : List (Arm (Effect σ) α)), SelectAlike arms v w

theorem Value.Same.observedAlike {v w : Value} (h : Same v w) : ObservedAlike v w where
  kind := h.kind_eq
  number := h.toNumber_alike
  text := h.toText_alike
  bool := h.toBool_alike
  view := h.view_alike
  elements := h.toList_alike
  head := h.head_alike
  last := h.last_alike
  tail := h.tail_alike
  length := h.length_alike
  empty := h.isEmpty_alike
  reversed := h.reverse_alike
  checked := h.constructorOf_eq
  matched := selectAlike_of_same h

/-- Equal values cannot be told apart, except by answers that are equal but not identical. And of
    two values that open as lists, the opened lists are equal exactly when the values are. -/
theorem observedAlike_of_beq (v w : Value) :
    ((v == w) = true → ObservedAlike v w) ∧
      ∀ x y, Sequence.view v = .ok x → Sequence.view w = .ok y → (x == y) = (v == w) :=
  ⟨fun h => (same_iff_beq.mpr h).observedAlike, fun _ _ => beq_view⟩

/-- The list of the one zero and the list of the other. -/
theorem observedAlike_zeros :
    (cons (.number 0.0) nil == cons (.number (-0.0)) nil) = true ∧
      ObservedAlike (cons (.number 0.0) nil) (cons (.number (-0.0)) nil) ∧
      (View.cons (.number 0.0) nil == View.cons (.number (-0.0)) nil) =
        (cons (.number 0.0) nil == cons (.number (-0.0)) nil) := by
  have hzeros : (cons (.number 0.0) nil == cons (.number (-0.0)) nil) = true := by
    rw [beq_eq_equal]
    decide
  have hlaws := observedAlike_of_beq (cons (.number 0.0) nil) (cons (.number (-0.0)) nil)
  exact ⟨hzeros, hlaws.1 hzeros, hlaws.2 _ _ rfl rfl⟩

end TaggedEval
