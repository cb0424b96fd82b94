import TaggedEval.Proofs.Number.Equality
import TaggedEval.Proofs.Value.Equality

/-!
# Equality is a matter of structure

`Same` says by induction what it is for two values to be equal: numbers that stand for the same
number, the same text, or the same tag with as many fields that are the same in pairs. The
comparison with a list of pending pairs ends after at most one round for each value inside the first
of the two, and its answer is whether the values are `Same` (`beq_iff_same`).
-/

namespace TaggedEval

namespace Value

/-! ## The same structure -/

/-- Two values have the same shape, the same tags and texts, and numbers that are the same. -/
inductive Same : Value → Value → Prop
  | number {x y : Float} (h : SameNumber x y) : Same (.number x) (.number y)
  | text (s : String) : Same (.text s) (.text s)
  | tagged (tag : UInt32) {xs ys : List Value} (length : xs.length = ys.length)
      (fields : ∀ p ∈ xs.zip ys, Same p.1 p.2) : Same (.tagged tag xs) (.tagged tag ys)

theorem same_number_iff {x y : Float} : Same (.number x) (.number y) ↔ SameNumber x y :=
  ⟨fun h => by cases h with | number h => exact h, .number⟩

theorem same_text_iff {s t : String} : Same (.text s) (.text t) ↔ s = t :=
  ⟨fun h => by cases h; rfl, fun h => h ▸ .text s⟩

theorem same_tagged_iff {t u : UInt32} {xs ys : List Value} :
    Same (.tagged t xs) (.tagged u ys) ↔
      t = u ∧ xs.length = ys.length ∧ ∀ p ∈ xs.zip ys, Same p.1 p.2 := by
  constructor
  · intro h
    cases h with
    | tagged tag length fields => exact ⟨rfl, length, fields⟩
  · rintro ⟨rfl, length, fields⟩
    exact .tagged t length fields

theorem equal_iff_same {v w : Value} : equal v w = true ↔ Same v w := by
  induction v using Value.induct generalizing w with
  | number x =>
    cases w with
    | number y => rw [equal, beq_iff_sameNumber, same_number_iff]
    | _ => constructor <;> intro h <;> cases h
  | text s =>
    cases w with
    | text t => rw [equal, beq_iff_eq, same_text_iff]
    | _ => constructor <;> intro h <;> cases h
  | tagged t xs ih =>
    cases w with
    | tagged u ys =>
      have hfields : (∀ p ∈ xs.zip ys, equal p.1 p.2 = true) ↔ ∀ p ∈ xs.zip ys, Same p.1 p.2 :=
        forall₂_congr fun p hp => ih p.1 (List.of_mem_zip hp).1
      rw [equal, equalAll_eq, Bool.and_eq_true, Bool.and_eq_true, beq_iff_eq, beq_iff_eq,
        List.all_eq_true, hfields, same_tagged_iff]
    | _ => constructor <;> intro h <;> cases h

/-! ## Rounds of the comparison -/

/-- From these pending pairs the comparison goes on for so many rounds, and answers in the next. -/
inductive AnswersAfter : List (Value × Value) → Nat → Bool → Prop
  | answer {pairs : List (Value × Value)} {b : Bool} (h : agreeStep pairs = .inl b) :
      AnswersAfter pairs 0 b
  | round {pairs next : List (Value × Value)} {n : Nat} {b : Bool}
      (h : agreeStep pairs = .inr next) (rest : AnswersAfter next n b) :
      AnswersAfter pairs (n + 1) b

/-- The comparison answers, and each round that it takes leaves one value less to look at. The
    number of pending pairs itself may grow. -/
theorem exists_answersAfter (pairs : List (Value × Value)) :
    ∃ n ≤ pendingParts pairs, AnswersAfter pairs n (agree pairs) := by
  fun_induction agree pairs with
  | case1 pairs answer h => exact ⟨0, Nat.zero_le _, .answer h⟩
  | case2 pairs next h ih =>
    obtain ⟨n, hn, hanswers⟩ := ih
    have hparts := pendingParts_agreeStep h
    exact ⟨n + 1, by omega, .round h hanswers⟩

/-- Comparing any two values takes at most as many rounds as there are values inside the first, and
    tells whether they have the same structure. -/
theorem beq_iff_same (v w : Value) :
    (∃ n ≤ v.parts.length, AnswersAfter [(v, w)] n (v == w)) ∧ ((v == w) = true ↔ Same v w) := by
  constructor
  · have hrounds := exists_answersAfter [(v, w)]
    rwa [pendingParts_cons, pendingParts, List.map_nil, partsAll, List.length_nil,
      Nat.add_zero] at hrounds
  · rw [beq_eq_equal]
    exact equal_iff_same

end Value

end TaggedEval
