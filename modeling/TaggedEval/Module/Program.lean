import TaggedEval.Text.Quoted
import TaggedEval.Value.Basic

/-!
# Programs over a module

The body of a definition, and whoever uses a module from outside, is a program: it looks names up,
asks what the module declares and which values are known, and reads and writes a host state of
any type. A program sees the outcome of a lookup, also a failed one, and decides what to do next; it
can do nothing else to the module. Every path through a program is finite.

`ExceptT Failure (Program σ)` is the monad to write programs in that fail with the first failure.
-/

namespace TaggedEval

/-- What a module declares: its name, the defined names in byte order, and the number of its
    entries. -/
structure Signature where
  name : String
  names : List String
  size : Nat

namespace Signature

def isDefined (s : Signature) (name : String) : Bool :=
  s.names.contains name

def isEmpty (s : Signature) : Bool :=
  s.size == 0

/-- The signature on one line, with all names quoted. -/
def describe (s : Signature) : String :=
  "Module \x7b name: " ++ Quoted.quote s.name ++ ", names: [" ++
    ", ".intercalate (s.names.map Quoted.quote) ++ "] \x7d"

end Signature

/-- A program with host state `σ` and result `α`. -/
inductive Program (σ α : Type) : Type where
  | finish (result : α)
  | lookup (name : String) (resume : Outcome Value → Program σ α)
  | isSettled (name : String) (resume : Bool → Program σ α)
  | signature (resume : Signature → Program σ α)
  | read (resume : σ → Program σ α)
  | write (host : σ) (rest : Program σ α)

abbrev Body (σ : Type) : Type :=
  Program σ (Outcome Value)

namespace Program

variable {σ α β : Type}

/-- Goes on with the result of a program. -/
def bind : Program σ α → (α → Program σ β) → Program σ β
  | finish result, f => f result
  | lookup name resume, f => lookup name fun r => (resume r).bind f
  | isSettled name resume, f => isSettled name fun b => (resume b).bind f
  | signature resume, f => signature fun s => (resume s).bind f
  | read resume, f => read fun host => (resume host).bind f
  | write host rest, f => write host (rest.bind f)

instance : Monad (Program σ) where
  pure := finish
  bind := bind

theorem bind_finish (p : Program σ α) : p.bind finish = p := by
  induction p with
  | finish => rfl
  | lookup name resume ih => simp only [bind, ih]
  | isSettled name resume ih => simp only [bind, ih]
  | signature resume ih => simp only [bind, ih]
  | read resume ih => simp only [bind, ih]
  | write host rest ih => simp only [bind, ih]

theorem bind_assoc {γ : Type} (p : Program σ α) (f : α → Program σ β) (g : β → Program σ γ) :
    (p.bind f).bind g = p.bind fun a => (f a).bind g := by
  induction p with
  | finish => rfl
  | lookup name resume ih => simp only [bind, ih]
  | isSettled name resume ih => simp only [bind, ih]
  | signature resume ih => simp only [bind, ih]
  | read resume ih => simp only [bind, ih]
  | write host rest ih => simp only [bind, ih]

instance : LawfulMonad (Program σ) :=
  LawfulMonad.mk' (Program σ) bind_finish (fun _ _ => rfl) bind_assoc

instance : MonadStateOf σ (Program σ) where
  get := read finish
  set host := write host (finish ())
  modifyGet f := read fun host => write (f host).2 (finish (f host).1)

/-! ## Using the module -/

/-- The value of a name, or the failure of its lookup. -/
def valueOf (name : String) : ExceptT Failure (Program σ) Value :=
  ExceptT.mk (lookup name finish)

def checkSettled (name : String) : Program σ Bool :=
  isSettled name finish

def declared : Program σ Signature :=
  signature finish

def valuesOf (names : List String) : ExceptT Failure (Program σ) (List (String × Value)) :=
  names.mapM fun name => return (name, ← valueOf name)

/-- Looks every defined name up, in byte order, and stops at the first failure. -/
def allValues : ExceptT Failure (Program σ) (List (String × Value)) := do
  let s ← (declared : Program σ Signature)
  valuesOf s.names

end Program

end TaggedEval
