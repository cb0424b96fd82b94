import TaggedEval.Sequence.Basic

/-!
# Operations on lists that run a callback

Everything here is a left fold, `foldl`, over the list or over its reverse. A callback may have
effects and may fail; the first failure ends the operation and is returned as it is.

`foldl` meets the elements before it can know that the chain of cells ends in `nil`. The other
operations reverse the list first, so they call nothing when it is no list, and then meet its
elements from the last to the first.
-/

namespace TaggedEval

namespace Sequence

variable {m : Type → Type} [Monad m] [MonadExcept Failure m] {α : Type}

/-- The left fold: `f element accumulator` for each element in order. -/
@[specialize] def foldl (f : Value → α → m α) (init : α) : Value → m α
  | .nil => pure init
  | .cons head tail => do foldl f (← f head init) tail
  | v => throw (v.mismatch "List")

def reverse (xs : Value) : Outcome Value :=
  foldl (fun x acc => pure (Value.cons x acc)) Value.nil xs

/-- The left fold over the reversed list: the last element comes first. -/
@[specialize] def foldr (f : Value → α → m α) (init : α) (xs : Value) : m α := do
  foldl f init (← MonadExcept.ofExcept (reverse xs))

/-- Applies `f` to every element, from the last to the first. The results are in list order. -/
@[specialize] def map (f : Value → m Value) (xs : Value) : m Value :=
  foldr (fun x acc => do return Value.cons (← f x) acc) Value.nil xs

/-- The elements for which `p` holds, in list order. -/
@[specialize] def filter (p : Value → m Bool) (xs : Value) : m Value :=
  foldr (fun x acc => do return if ← p x then Value.cons x acc else acc) Value.nil xs

/-- The elements for which `p` does not hold, in list order. -/
@[specialize] def reject (p : Value → m Bool) (xs : Value) : m Value :=
  filter (fun x => not <$> p x) xs

def length (xs : Value) : Outcome Nat :=
  foldl (fun _ n => pure (n + 1)) 0 xs

/-! ## One step of the fold -/

theorem foldl_nil (f : Value → α → m α) (init : α) : foldl f init .nil = pure init := rfl

theorem foldl_cons (f : Value → α → m α) (init : α) (head tail : Value) :
    foldl f init (.cons head tail) = (do foldl f (← f head init) tail) := rfl

end Sequence

end TaggedEval
